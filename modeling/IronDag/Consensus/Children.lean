import IronDag.Consensus.OrderingInvariant

namespace IronDag

open Delivery List DagStorage
open GhostDag hiding storage

namespace DagStorage

/-- The cached list of a block, if there is one, is `children`; so is the list behind it. -/
structure Lists (storage : DagStorage) (parent : Hash) (children : List Hash) : Prop where
  hot : ∀ cached ∈ storage.hotChildren.lookup parent, cached = children
  cold : storage.hotChildren.lookup parent = none ∨ storage.database ≠ none →
    (storage.database.bind fun database => database.children.lookup parent).getD [] = children

theorem Lists.getChildren {storage : DagStorage}
    (lists : storage.Lists parent children) : storage.getChildren parent = children := by
  unfold DagStorage.getChildren
  cases cached : storage.hotChildren.lookup parent with
  | some list => exact lists.hot list cached
  | none => exact lists.cold (.inl cached)

/-- The list with the child at its end, unless it has the child already. -/
def withChild (child : Hash) (children : List Hash) : List Hash :=
  if child ∈ children then children else children ++ [child]

theorem withChild_idempotent {children : List Hash} :
    withChild child (withChild child children) = withChild child children := by
  have member : child ∈ withChild child children := by
    unfold withChild
    split
    · assumption
    · simp
  rw [withChild, if_pos member]

section Link

variable {storage : DagStorage} (lists : storage.Lists parent children) (child : Hash)

include lists

theorem Lists.persistChild_of_ne (different : parent ≠ other) :
    (persistChild child storage other).Lists parent children := by
  unfold persistChild
  cases present : storage.database with
  | none => exact lists
  | some database =>
    dsimp only
    split
    · exact lists
    · have sameHot : (if other ∈ storage.hotChildren
          then storage.hotChildren.insert other (storage.getChildren other ++ [child])
          else storage.hotChildren).lookup parent = storage.hotChildren.lookup parent := by
        split
        · exact Finmap.lookup_insert_of_ne _ different
        · rfl
      refine ⟨?_, ?_⟩
      · simpa only [sameHot] using lists.hot
      · have cold := lists.cold (.inr (by simp [present]))
        simpa [present, Finmap.lookup_insert_of_ne _ different] using cold

theorem Lists.persistChild_self (persistent : storage.database ≠ none) :
    (persistChild child storage parent).Lists parent (withChild child children) := by
  obtain ⟨database, present⟩ := Option.ne_none_iff_exists'.mp persistent
  unfold persistChild withChild
  rw [present]
  dsimp only
  rw [lists.getChildren]
  split
  · exact lists
  · refine ⟨?_, ?_⟩
    · split
      · simp
      · rename_i uncached
        simp [Finmap.lookup_eq_none.mpr uncached]
    · simp

theorem Lists.linkChild_of_ne (different : parent ≠ other) :
    (linkChild child storage other).Lists parent children := by
  unfold linkChild
  split
  · exact lists
  · have sameHot :
        (storage.hotChildren.insert other (storage.getChildren other ++ [child])).lookup parent =
          storage.hotChildren.lookup parent :=
      Finmap.lookup_insert_of_ne _ different
    unfold setChildren
    refine ⟨?_, ?_⟩
    · simpa only [sameHot] using lists.hot
    · simpa only [sameHot] using lists.cold

theorem Lists.linkChild_self (memoryOnly : storage.database = none) :
    (linkChild child storage parent).Lists parent (withChild child children) := by
  unfold linkChild withChild
  rw [lists.getChildren]
  split
  · exact lists
  · unfold setChildren
    refine ⟨?_, ?_⟩
    · simp
    · simp [memoryOnly]

end Link

theorem Lists.foldl (holds : DagStorage → Prop)
    (kept : ∀ storage parent, holds storage → holds (step storage parent))
    (apart : ∀ {storage : DagStorage} {parent children}, storage.Lists parent children →
      ∀ {other}, parent ≠ other → (step storage other).Lists parent children)
    (own : ∀ {storage : DagStorage} {parent children}, storage.Lists parent children →
      holds storage → (step storage parent).Lists parent (withChild child children))
    (parents : List Hash) (start : holds storage)
    (lists : storage.Lists parent children) :
    (parents.foldl step storage).Lists parent
      (if parent ∈ parents then withChild child children else children) := by
  induction parents generalizing storage children with
  | nil => exact lists
  | cons first rest ih =>
    by_cases same : parent = first
    · subst same
      have next := ih (kept storage parent start) (own lists start)
      rw [withChild_idempotent, ite_self] at next
      rwa [if_pos mem_cons_self]
    · have next := ih (kept storage first start) (apart lists same)
      simpa [same] using next

theorem foldl_linkChild_of_linked {parents : List Hash}
    (linked : ∀ parent ∈ parents, child ∈ storage.getChildren parent) :
    parents.foldl (linkChild child) storage = storage := by
  induction parents with
  | nil => rfl
  | cons first rest ih =>
    have unchanged : linkChild child storage first = storage := if_pos (linked first mem_cons_self)
    rw [foldl_cons, unchanged]
    exact ih fun parent member => linked parent (mem_cons_of_mem first member)

theorem Lists.drop (lists : storage.Lists parent children)
    (persistent : storage.database ≠ none) (dropped order : List Hash) :
    { dropped.foldl finalize storage with hotBlocksOrder := order }.Lists parent children := by
  have behind := sameBehindCache_foldl_finalize storage dropped
  refine ⟨?_, ?_⟩
  · intro cached found
    rw [hotChildren_foldl_finalize] at found
    split at found
    · cases found
    · exact lists.hot cached found
  · intro _
    rw [behind.database]
    exact lists.cold (.inr persistent)

/-- Every block lists the delivered blocks that name it as a parent. -/
def Indexed (blocks : List Block) (storage : DagStorage) : Prop :=
  ∀ parent, storage.Lists parent (childrenOf blocks parent)

theorem Indexed.new {database : Option DagDatabase}
    (fresh : ∀ contents ∈ database, contents = .empty) : (new database).Indexed [] := by
  intro parent
  refine ⟨?_, ?_⟩
  · simp [DagStorage.new]
  · intro _
    cases database with
    | none => rfl
    | some contents =>
      rw [fresh contents rfl]
      simp [DagStorage.new, DagDatabase.empty, childrenOf, hashes]

section Insert

variable {storage : DagStorage} (stores : storage.Stores blocks) (indexed : storage.Indexed blocks)
  {block : Block} (fresh : block.hash ∉ hashes blocks)

include fresh

omit stores indexed in
theorem childrenOf_append_eq_withChild (parent : Hash) : childrenOf (blocks ++ [block]) parent =
      if parent ∈ block.parents then withChild block.hash (childrenOf blocks parent)
      else childrenOf blocks parent := by
  have new : block.hash ∉ childrenOf blocks parent := by
    intro listed
    obtain ⟨other, member, same⟩ := mem_map.mp listed
    exact fresh (mem_map.mpr ⟨other, (mem_filter.mp member).1, same⟩)
  rw [childrenOf_append_singleton, withChild]
  split <;> simp

include stores indexed

/-- With a database the new block is listed on disk first. -/
theorem Indexed.insert_of_database (persistent : storage.database ≠ none) :
    (block.parents.foldl (linkChild block.hash) (storage.addBlock block)).Indexed
      (blocks ++ [block]) := by
  have persisted : ((storage.cacheBlock block).persistBlock block).Indexed (blocks ++ [block]) := by
    intro parent
    rw [childrenOf_append_eq_withChild fresh]
    refine Lists.foldl (fun storage => storage.database ≠ none) ?_
      (fun lists _ => lists.persistChild_of_ne block.hash)
      (fun lists => lists.persistChild_self block.hash) _ ?_ ?_
    · intro other parent
      exact mt (database_of_withoutChildren
        (withoutChildren_persistChild block.hash other parent)).mp
    · simpa using persistent
    · obtain ⟨contents, present⟩ := Option.ne_none_iff_exists'.mp persistent
      refine ⟨(indexed parent).hot, fun _ => ?_⟩
      have cold := (indexed parent).cold (.inr persistent)
      simpa [present] using cold
  have stillPersistent : ((storage.cacheBlock block).persistBlock block).database ≠ none := by
    refine mt (database_of_withoutChildren
      (withoutChildren_foldl (withoutChildren_persistChild block.hash) _ _)).mp ?_
    simpa using persistent
  obtain ⟨count, added⟩ := stores.addBlock_eq fresh
  have evicted : (storage.addBlock block).Indexed (blocks ++ [block]) := by
    intro parent
    rw [added]
    exact (persisted parent).drop stillPersistent _ _
  rw [foldl_linkChild_of_linked]
  · exact evicted
  · intro parent isParent
    rw [(evicted parent).getChildren, childrenOf_append_singleton, if_pos isParent]
    simp

/-- In memory the new block is listed in the cache, which still has room. -/
theorem Indexed.insert_of_room (memoryOnly : storage.database = none)
    (room : storage.hotBlocks.keys.card < 1000) :
    (block.parents.foldl (linkChild block.hash) (storage.addBlock block)).Indexed
      (blocks ++ [block]) := by
  have unpersisted : ∀ (parents : List Hash) (storage : DagStorage), storage.database = none →
      parents.foldl (persistChild block.hash) storage = storage := by
    intro parents storage memoryOnly
    induction parents with
    | nil => rfl
    | cons first rest ih =>
      have unchanged : persistChild block.hash storage first = storage := by
        rw [persistChild, memoryOnly]
      rw [foldl_cons, unchanged, ih]
  rw [stores.addBlock_of_room fresh room, persistBlock, unpersisted _ _ (by simpa using memoryOnly)]
  intro parent
  rw [childrenOf_append_eq_withChild fresh]
  refine Lists.foldl (fun storage => storage.database = none) ?_
    (fun lists _ => lists.linkChild_of_ne block.hash)
    (fun lists => lists.linkChild_self block.hash) _ ?_ ?_
  · intro other parent
    exact (database_of_withoutChildren (withoutChildren_linkChild block.hash other parent)).mpr
  · simpa using memoryOnly
  · refine ⟨(indexed parent).hot, fun uncached => ?_⟩
    have cold := (indexed parent).cold (.inl (uncached.resolve_right (by simp [memoryOnly])))
    simpa [memoryOnly] using cold

end Insert

/-- Starting the new block off without children is right if no block has named it as a parent. -/
theorem Indexed.setChildren_nil {storage : DagStorage} (indexed : storage.Indexed blocks)
    {hash : Hash} (childless : childrenOf blocks hash = []) :
    (storage.setChildren hash []).Indexed blocks := by
  intro parent
  unfold setChildren
  by_cases same : parent = hash
  · subst same
    refine ⟨by simp [childless], ?_⟩
    rintro (uncached | persistent)
    · simp at uncached
    · exact (indexed parent).cold (.inr persistent)
  · have sameHot : (storage.hotChildren.insert hash []).lookup parent =
        storage.hotChildren.lookup parent :=
      Finmap.lookup_insert_of_ne _ same
    refine ⟨?_, ?_⟩
    · simpa only [sameHot] using (indexed parent).hot
    · simpa only [sameHot] using (indexed parent).cold

end DagStorage

namespace GhostDag

/-- No block comes after a block that names it as a parent, and none names itself. -/
def ChildrenLater (blocks : List Block) : Prop :=
  blocks.Pairwise (fun earlier later => later.hash ∉ earlier.parents) ∧ ∀ block ∈ blocks,
    block.hash ∉ block.parents

instance (blocks : List Block) : Decidable (ChildrenLater blocks) :=
  inferInstanceAs (Decidable (_ ∧ ∀ block ∈ blocks, block.hash ∉ block.parents))

theorem ChildrenLater.childless (later : ChildrenLater blocks)
    (split : blocks = front ++ block :: back) : childrenOf front block.hash = [] := by
  have apart := later.1
  rw [split] at apart
  rw [childrenOf, filter_eq_nil_iff.mpr]
  · rfl
  · intro earlier member
    simpa using (pairwise_append.mp apart).2.2 earlier member block mem_cons_self

theorem childrenLater_of_parentsFirst (order : ParentsFirst blocks) : ChildrenLater blocks := by
  induction blocks using reverseRecOn with
  | nil => simp [ChildrenLater]
  | append_singleton front last ih =>
    obtain ⟨frontOrder, fresh, closed⟩ := parentsFirst_append_singleton.mp order
    obtain ⟨apart, irreflexive⟩ := ih frontOrder
    have unnamed : ∀ earlier ∈ front, last.hash ∉ earlier.parents := by
      intro earlier member isParent
      obtain ⟨before, after, split⟩ := append_of_mem member
      have named := (parentsFirst_iff.mp frontOrder).2 before earlier after split last.hash isParent
      exact fresh (by rw [split, hashes, map_append]; exact mem_append_left _ named)
    refine ⟨pairwise_append.mpr ⟨apart, pairwise_singleton _ _, ?_⟩, ?_⟩
    · intro earlier member later isLast
      rw [mem_singleton.mp isLast]
      exact unnamed earlier member
    · intro block member
      rcases mem_append.mp member with old | isLast
      · exact irreflexive block old
      · rw [mem_singleton.mp isLast]
        exact fun own => fresh (closed _ own)

/-- The index returns, for every delivered block, exactly its delivered children, each once. -/
def ChildrenExact (blocks : List Block) (dag : GhostDag) : Prop :=
  ∀ parent ∈ hashes blocks, (dag.storage.getChildren parent).Nodup ∧
    ∀ child, child ∈ dag.storage.getChildren parent ↔ ∃ block ∈ blocks, block.hash = child ∧
      parent ∈ block.parents

theorem ChildrenExact.of_indexed (indexed : dag.storage.Indexed blocks)
    (distinct : (hashes blocks).Nodup) : ChildrenExact blocks dag := by
  intro parent _
  rw [(indexed parent).getChildren]
  refine ⟨distinct.sublist (filter_sublist.map Block.hash), fun child => ?_⟩
  simp only [childrenOf, hashes, mem_map, mem_filter, decide_eq_true_eq]
  constructor
  · rintro ⟨block, ⟨member, isParent⟩, same⟩
    exact ⟨block, member, same, isParent⟩
  · rintro ⟨block, member, same, isParent⟩
    exact ⟨block, ⟨member, isParent⟩, same⟩

theorem indexed_countCheckpoint {dag : GhostDag} (indexed : dag.storage.Indexed blocks) :
    dag.countCheckpoint.storage.Indexed blocks := by
  intro parent
  obtain ⟨hot, cold⟩ := indexed parent
  unfold countCheckpoint
  dsimp only
  split_ifs
  · exact ⟨hot, cold⟩
  · refine ⟨hot, fun source => ?_⟩
    have stored := cold (source.imp_right (mt Option.map_eq_none_iff.mpr))
    simpa [saveCheckpoint, Option.bind_map] using stored
  · exact ⟨hot, cold⟩

theorem indexed_pruneBelowCheckpoint {dag : GhostDag} (indexed : dag.storage.Indexed blocks)
    (kept : dag.storage.database ≠ none ∨ dag.ordering.length ≤ confirmations + confirmations) :
    (dag.pruneBelowCheckpoint confirmations).storage.Indexed blocks := by
  intro parent
  unfold pruneBelowCheckpoint
  dsimp only
  split
  · exact indexed parent
  · rename_i long
    exact (indexed parent).drop (kept.resolve_right long) _ _

section Step

variable (known : Known blocks dag) (new : New blocks block) (indexed : dag.storage.Indexed blocks)
  (childless : childrenOf blocks block.hash = [])

include known new indexed childless

theorem indexed_insertBlock (room : dag.storage.database ≠ none ∨ blocks.length < 1000) :
    (dag.insertBlock block).storage.Indexed (blocks ++ [block]) := by
  have stillChildless : childrenOf (blocks ++ [block]) block.hash = [] := by
    rw [childrenOf_append_singleton, childless, if_neg new.irreflexive]
    rfl
  refine Indexed.setChildren_nil ?_ stillChildless
  by_cases memoryOnly : dag.storage.database = none
  · have few := room.resolve_left (fun persistent => persistent memoryOnly)
    exact indexed.insert_of_room known.stored new.fresh memoryOnly
      (known.stored.card_hotBlocks_le.trans_lt few)
  · exact indexed.insert_of_database known.stored new.fresh memoryOnly

theorem indexed_addBlock (search : BinarySearch) (iteration : SetIteration Hash)
    (room : dag.storage.database ≠ none ∨ blocks.length < 200) :
    (dag.addBlock search iteration block).storage.Indexed (blocks ++ [block]) := by
  obtain ⟨colored, outcome, reached, -, call⟩ := known.call search iteration new
  have inserted := indexed_insertBlock known new indexed childless
    (room.imp_right (fun few => few.trans (by decide)))
  rw [← outcome.storage] at inserted
  rw [call]
  refine indexed_countCheckpoint (indexed_pruneBelowCheckpoint inserted ?_)
  rcases room with persistent | few
  · left
    rw [outcome.storage]
    exact mt (database_insertBlock known.stored new.fresh).mp persistent
  · -- the ordering lists delivered blocks, each once
    have listed : colored.ordering.length ≤ (hashes (blocks ++ [block])).length :=
      (reached.distinct.subperm fun hash placed =>
        reached.blue hash (reached.ordered hash placed)).length_le
    rw [hashes, length_map, length_append, length_singleton] at listed
    omega

end Step

section Run

variable (search : BinarySearch) (iterations : Hash → SetIteration Hash)
  {database : Option DagDatabase}
  (empty : ∀ contents ∈ database, contents = .empty) {blocks : List Block}
    (distinct : (hashes blocks).Nodup)
  (later : ChildrenLater blocks) (room : database ≠ none ∨ blocks.length ≤ 200)

include empty distinct later room

theorem indexed_of_run : ∀ front back, blocks = front ++ back →
    Known front (Run.run (call search iterations) (new database) front) ∧
      (Run.run (call search iterations) (new database) front).storage.Indexed front ∧
      ((Run.run (call search iterations) (new database) front).storage.database = none ↔
        database = none) := by
  refine Run.invariant_of_prefixes (fun front dag => Known front dag ∧ dag.storage.Indexed front ∧
    (dag.storage.database = none ↔ database = none)) (fun _ _ => True)
    ⟨.new empty, .new empty, Iff.rfl⟩ ?_ (fun _ _ => trivial)
  rintro front block back split - ⟨known, indexed, disk⟩
  have new : New front block := ⟨fresh_of_split distinct split, later.2 block (by simp [split])⟩
  have childless := later.childless split
  refine ⟨known.addBlock search _ new, indexed_addBlock known new indexed childless search _ ?_,
    (known.database_addBlock search _ new).trans disk⟩
  refine room.imp (mt disk.mp) fun few => ?_
  rw [split, length_append, length_cons] at few
  omega

/-- In every run in which no block follows one of its children, over a database or with at most 200
blocks, the index stays exact. -/
theorem childrenExact_of_run : ∀ front back, blocks = front ++ back →
    ChildrenExact front (Run.run (call search iterations) (new database) front) := by
  intro front back split
  obtain ⟨-, indexed, -⟩ :=
    indexed_of_run search iterations empty distinct later room front back split
  have frontDistinct : (hashes front).Nodup := by
    rw [split, hashes, map_append] at distinct
    exact distinct.of_append_left
  exact .of_indexed indexed frontDistinct

end Run

theorem fork_childrenExact : ChildrenLater (fork 1600000010 1600000011) ∧
      ∀ front back, fork 1600000010 1600000011 = front ++ back →
        ChildrenExact front
          (Run.run (call BinarySearch.standard numericIterations) (new none) front) := by
  have later : ChildrenLater (fork 1600000010 1600000011) := by decide +kernel
  exact ⟨later, childrenExact_of_run BinarySearch.standard numericIterations (by simp)
    (by decide +kernel) later (.inr (by decide))⟩

/-- A block that comes after its child starts off without children. -/
theorem child_first_forgotten : ¬ChildrenExact
    [plainBlock 2 [1] 1 1600000010, plainBlock 1 [] 0 1600000000]
      (deliver BinarySearch.standard numericIterations
        [plainBlock 2 [1] 1 1600000010, plainBlock 1 [] 0 1600000000] (new (some .empty))) := by
  intro exact
  have listed := ((exact 1 (by decide +kernel)).2 2).mpr
    ⟨plainBlock 2 [1] 1 1600000010, by simp, rfl, by decide +kernel⟩
  revert listed
  decide +kernel

end GhostDag

end IronDag
