import IronDag.Consensus.Ranking
import IronDag.Lib.Height

/-!
Finite DAGs as lists of blocks in an order of delivery, and what such a list says about each
block independently of that order: its parents, its depth and its rank.
-/

namespace IronDag

open Height List

abbrev Block.parents (block : Block) : List Hash :=
  block.header.parentHashes

namespace Delivery

def hashes (blocks : List Block) : List Hash :=
  blocks.map Block.hash

/-- Every block brings a new hash and follows all of its parents. -/
def ParentsFirstAfter (known : List Hash) : List Block → Prop
  | [] => True
  | block :: rest =>
    block.hash ∉ known ∧ (∀ parent ∈ block.parents, parent ∈ known) ∧
      ParentsFirstAfter (known ++ [block.hash]) rest

instance decidableParentsFirstAfter : ∀ known blocks, Decidable (ParentsFirstAfter known blocks)
  | _, [] => inferInstanceAs (Decidable True)
  | known, block :: rest =>
    have := decidableParentsFirstAfter (known ++ [block.hash]) rest
    -- through the list, not through all hashes
    have : Decidable (∀ parent ∈ block.parents, parent ∈ known) := decidableBAll ..
    inferInstanceAs (Decidable (_ ∧ _ ∧ _))

/-- A delivery order of a whole DAG. -/
abbrev ParentsFirst (blocks : List Block) : Prop :=
  ParentsFirstAfter [] blocks

def find (blocks : List Block) (hash : Hash) : Option Block :=
  blocks.find? fun block => decide (block.hash = hash)

def parentsOf (blocks : List Block) (hash : Hash) : List Hash :=
  ((find blocks hash).map Block.parents).getD []

def childrenOf (blocks : List Block) (hash : Hash) : List Hash :=
  hashes (blocks.filter fun block => decide (hash ∈ block.parents))

def timestampOf (blocks : List Block) (hash : Hash) : U64 :=
  ((find blocks hash).map fun block => block.header.timestamp).getD 0

/-- The number of blocks on the longest chain from a parentless block to this one. -/
def depth (blocks : List Block) (hash : Hash) : Nat :=
  height (parentsOf blocks) blocks.length hash

/-- Depth first, then timestamp. -/
def rank (blocks : List Block) (hash : Hash) : Lex (Nat × Nat) :=
  toLex (depth blocks hash, (timestampOf blocks hash).toNat)

theorem hashes_append_singleton {blocks : List Block} {block : Block} :
    hashes (blocks ++ [block]) = hashes blocks ++ [block.hash] := by
  simp [hashes]

variable {hash : Hash}

theorem childrenOf_append_singleton {blocks : List Block} {block : Block} : childrenOf
    (blocks ++ [block]) hash =
      childrenOf blocks hash ++ if hash ∈ block.parents then [block.hash] else [] := by
  unfold childrenOf
  by_cases isParent : hash ∈ block.parents <;> simp [hashes, isParent]

theorem parentsFirstAfter_append_singleton {known : List Hash} {blocks : List Block}
    {block : Block} : ParentsFirstAfter known (blocks ++ [block]) ↔
      ParentsFirstAfter known blocks ∧ block.hash ∉ known ++ hashes blocks ∧
        ∀ parent ∈ block.parents, parent ∈ known ++ hashes blocks := by
  induction blocks generalizing known with
  | nil => simp [ParentsFirstAfter, hashes]
  | cons head rest ih =>
    simp only [cons_append, ParentsFirstAfter, ih]
    have regroup : known ++ [head.hash] ++ hashes rest = known ++ hashes (head :: rest) := by
      simp [hashes]
    rw [regroup]
    tauto

theorem parentsFirst_append_singleton : ParentsFirst (blocks ++ [block]) ↔
      ParentsFirst blocks ∧ block.hash ∉ hashes blocks ∧
        ∀ parent ∈ block.parents, parent ∈ hashes blocks := by
  simpa using @parentsFirstAfter_append_singleton [] blocks block

theorem genesis_parents (order : ParentsFirst (genesis :: later)) : genesis.parents = [] :=
  subset_nil.mp fun parent isParent => order.2.1 parent isParent

theorem nodup_hashes (order : ParentsFirst blocks) : (hashes blocks).Nodup := by
  induction blocks using reverseRecOn with
  | nil => simp [hashes]
  | append_singleton front last ih =>
    obtain ⟨frontOrder, fresh, -⟩ := parentsFirst_append_singleton.mp order
    rw [hashes_append_singleton, nodup_append_comm]
    exact nodup_cons.mpr ⟨fresh, ih frontOrder⟩

theorem find_eq_some_iff (distinct : (hashes blocks).Nodup) :
    find blocks hash = some block ↔ block ∈ blocks ∧ block.hash = hash := by
  induction blocks with
  | nil => simp [find]
  | cons head rest ih =>
    simp only [hashes, map_cons, nodup_cons] at distinct
    obtain ⟨headFresh, restDistinct⟩ := distinct
    have restFind := ih restDistinct
    unfold find at restFind ⊢
    rw [find?_cons]
    by_cases same : head.hash = hash
    · simp only [same, decide_true, Option.some_inj, mem_cons]
      constructor
      · rintro rfl
        exact ⟨.inl rfl, same⟩
      · rintro ⟨rfl | later, found⟩
        · rfl
        · exact absurd (mem_map.mpr ⟨block, later, found.trans same.symm⟩) headFresh
    · simp only [same, decide_false, restFind, mem_cons]
      constructor
      · rintro ⟨later, found⟩
        exact ⟨.inr later, found⟩
      · rintro ⟨rfl | later, found⟩
        · exact absurd found same
        · exact ⟨later, found⟩

theorem parentsOf_of_mem (distinct : (hashes blocks).Nodup) (member : block ∈ blocks) :
    parentsOf blocks block.hash = block.parents := by
  simp [parentsOf, (find_eq_some_iff distinct).mpr ⟨member, rfl⟩]

theorem eq_of_hash_eq (distinct : (hashes blocks).Nodup)
    (inLeft : left ∈ blocks) (inRight : right ∈ blocks) (same : left.hash = right.hash) :
    left = right := by
  have leftFound := (find_eq_some_iff distinct).mpr ⟨inLeft, same⟩
  have rightFound := (find_eq_some_iff distinct).mpr ⟨inRight, rfl⟩
  exact Option.some.inj (leftFound.symm.trans rightFound)

theorem find_isSome_iff : (find blocks hash).isSome ↔ hash ∈ hashes blocks := by
  simp [find, hashes]

theorem find_perm (same : first.Perm second) (distinct : (hashes first).Nodup) :
    find first = find second := by
  have other : (hashes second).Nodup := (same.map Block.hash).nodup_iff.mp distinct
  ext block
  rw [find_eq_some_iff distinct, find_eq_some_iff other, same.mem_iff]

theorem find_append_singleton (fresh : block.hash ∉ hashes blocks) (hash : Hash) :
    find (blocks ++ [block]) hash = if hash = block.hash then some block else find blocks hash := by
  unfold find
  by_cases same : hash = block.hash
  · subst same
    have absent : blocks.find? (fun other => decide (other.hash = block.hash)) = none := by
      rw [find?_eq_none]
      intro other member equal
      exact fresh (mem_map.mpr ⟨other, member, by simpa using equal⟩)
    simp [absent]
  · have different : ¬block.hash = hash := fun equal => same equal.symm
    simp [same, different]

theorem idxOf_parent_lt (order : ParentsFirst blocks) (hash : Hash) :
    ∀ parent ∈ parentsOf blocks hash, (hashes blocks).idxOf parent <
      (hashes blocks).idxOf hash := by
  induction blocks using reverseRecOn with
  | nil => simp [parentsOf, find]
  | append_singleton front last ih =>
    obtain ⟨frontOrder, fresh, closed⟩ := parentsFirst_append_singleton.mp order
    intro parent isParent
    unfold parentsOf at isParent
    rw [find_append_singleton fresh] at isParent
    rw [hashes_append_singleton]
    by_cases same : hash = last.hash
    · subst same
      simp only at isParent
      have earlier := closed parent isParent
      rw [idxOf_append_of_mem earlier, idxOf_append_of_notMem fresh]
      have bound := idxOf_lt_length_of_mem earlier
      omega
    · rw [if_neg same] at isParent
      have lower := ih frontOrder parent isParent
      by_cases known : hash ∈ hashes front
      · have bound := idxOf_lt_length_of_mem known
        have parentKnown : parent ∈ hashes front := idxOf_lt_length_iff.mp (lower.trans bound)
        rw [idxOf_append_of_mem known, idxOf_append_of_mem parentKnown]
        exact lower
      · have unknown : find front hash = none := by
          rw [← Option.not_isSome_iff_eq_none, find_isSome_iff]
          exact known
        simp [unknown] at isParent

theorem depth_eq (order : ParentsFirst blocks) (member : hash ∈ hashes blocks) :
    depth blocks hash = fromParents (parentsOf blocks) (depth blocks) hash := by
  have bound : (hashes blocks).idxOf hash < blocks.length := by
    have inside := idxOf_lt_length_of_mem member
    rwa [hashes, length_map] at inside
  exact height_eq (idxOf_parent_lt order) bound

theorem depth_le_length (blocks : List Block) (hash : Hash) :
    depth blocks hash ≤ blocks.length := by
  have general : ∀ fuel node, height (parentsOf blocks) fuel node ≤ fuel := by
    intro fuel
    induction fuel with
    | zero => intro node; exact le_rfl
    | succ fuel ih =>
      intro node
      have below :
          largest ((parentsOf blocks node).map (height (parentsOf blocks) fuel)) ≤ fuel := by
        apply largest_le
        intro number listed
        obtain ⟨parent, -, rfl⟩ := mem_map.mp listed
        exact ih parent
      simp only [height, fromParents]
      omega
  exact general _ _

theorem parentsOf_mem (order : ParentsFirst blocks) {hash parent : Hash}
    (member : hash ∈ hashes blocks) (isParent : parent ∈ parentsOf blocks hash) :
    parent ∈ hashes blocks := by
  have lower := idxOf_parent_lt order hash parent isParent
  have bound := idxOf_lt_length_of_mem member
  exact idxOf_lt_length_iff.mp (lower.trans bound)

theorem depth_parent_lt (order : ParentsFirst blocks) {hash parent : Hash}
    (member : hash ∈ hashes blocks) (isParent : parent ∈ parentsOf blocks hash) :
    depth blocks parent < depth blocks hash := by
  have bound : depth blocks parent ≤ largest ((parentsOf blocks hash).map (depth blocks)) :=
    le_largest (mem_map_of_mem isParent)
  rw [depth_eq order member, fromParents]
  omega

theorem parentsFirst_iff : ParentsFirst blocks ↔ (hashes blocks).Nodup ∧
      ∀ before block after, blocks = before ++ block :: after →
        ∀ parent ∈ block.parents, parent ∈ hashes before := by
  induction blocks using reverseRecOn with
  | nil => simp [ParentsFirstAfter, hashes]
  | append_singleton front last ih =>
    rw [parentsFirst_append_singleton, ih, hashes_append_singleton, nodup_append_comm,
      singleton_append, nodup_cons]
    constructor
    · rintro ⟨⟨distinct, earlier⟩, fresh, closed⟩
      refine ⟨⟨fresh, distinct⟩, ?_⟩
      intro before block after split
      rcases eq_nil_or_concat after with rfl | ⟨rest, final, rfl⟩
      · obtain ⟨rfl, same⟩ := append_inj' split rfl
        rw [← (cons.inj same).1]
        exact closed
      · have shape : front ++ [last] = (before ++ block :: rest) ++ [final] := by
          simpa using split
        exact earlier before block rest (append_inj' shape rfl).1
    · rintro ⟨⟨fresh, distinct⟩, earlier⟩
      refine ⟨⟨distinct, ?_⟩, fresh, earlier front last [] rfl⟩
      intro before block after split
      exact earlier before block (after ++ [last]) (by simp [split])

theorem parentsFirst_of_depth_sorted (order : ParentsFirst blocks) (same : layered.Perm blocks)
    (sorted : layered.Pairwise fun left right => depth blocks left.hash ≤ depth blocks right.hash) :
    ParentsFirst layered := by
  have distinct := nodup_hashes order
  refine parentsFirst_iff.mpr ⟨(same.map Block.hash).nodup_iff.mpr distinct, ?_⟩
  intro before block after split parent isParent
  have member : block ∈ blocks := same.mem_iff.mp (by simp [split])
  have hashed : block.hash ∈ hashes blocks := mem_map_of_mem member
  have listed : parent ∈ parentsOf blocks block.hash := by
    rwa [parentsOf_of_mem distinct member]
  have lower := depth_parent_lt order hashed listed
  obtain ⟨ancestor, inBlocks, rfl⟩ := mem_map.mp (parentsOf_mem order hashed listed)
  rw [split] at sorted
  obtain ⟨-, sortedBack, -⟩ := pairwise_append.mp sorted
  have inLayered : ancestor ∈ before ++ block :: after := split ▸ same.mem_iff.mpr inBlocks
  rcases mem_append.mp inLayered with earlier | later
  · exact mem_map_of_mem earlier
  · rcases mem_cons.mp later with rfl | after
    · exact absurd lower (lt_irrefl _)
    · exact absurd ((pairwise_cons.mp sortedBack).1 ancestor after) (not_le.mpr lower)

section Append

variable (order : ParentsFirst (blocks ++ [block]))

include order

section

variable (member : hash ∈ hashes blocks)

include member

theorem parentsOf_append : parentsOf (blocks ++ [block]) hash = parentsOf blocks hash := by
  obtain ⟨-, fresh, -⟩ := parentsFirst_append_singleton.mp order
  have different : hash ≠ block.hash := fun same => fresh (same ▸ member)
  simp [parentsOf, find_append_singleton fresh, different]

theorem timestampOf_append : timestampOf (blocks ++ [block]) hash = timestampOf blocks hash := by
  obtain ⟨-, fresh, -⟩ := parentsFirst_append_singleton.mp order
  have different : hash ≠ block.hash := fun same => fresh (same ▸ member)
  simp [timestampOf, find_append_singleton fresh, different]

theorem depth_append : depth (blocks ++ [block]) hash = depth blocks hash := by
  obtain ⟨frontOrder, -, -⟩ := parentsFirst_append_singleton.mp order
  refine unique_on (idxOf_parent_lt frontOrder) (fun other => other ∈ hashes blocks)
    (fun node inside parent isParent => parentsOf_mem frontOrder inside isParent) ?_
    (fun node inside => depth_eq frontOrder inside) hash member
  intro node inside
  rw [depth_eq order (by rw [hashes_append_singleton]; exact mem_append_left _ inside)]
  unfold fromParents
  rw [parentsOf_append order inside]

theorem rank_append : rank (blocks ++ [block]) hash = rank blocks hash := by
  rw [rank, rank, depth_append order member, timestampOf_append order member]

end

theorem depth_new :
    depth (blocks ++ [block]) block.hash = 1 + largest (block.parents.map (depth blocks)) := by
  obtain ⟨-, fresh, closed⟩ := parentsFirst_append_singleton.mp order
  have own : parentsOf (blocks ++ [block]) block.hash = block.parents := by
    simp [parentsOf, find_append_singleton fresh]
  rw [depth_eq order (by simp [hashes]), fromParents, own]
  congr 2
  exact map_congr_left fun parent isParent => depth_append order (closed parent isParent)

end Append

theorem depth_perm (same : first.Perm second) (distinct : (hashes first).Nodup) :
    depth first = depth second := by
  unfold depth
  have parents : parentsOf first = parentsOf second := by
    funext other
    rw [parentsOf, parentsOf, find_perm same distinct]
  rw [parents, same.length_eq]

theorem rank_perm (same : first.Perm second) (distinct : (hashes first).Nodup) :
    rank first = rank second := by
  funext hash
  rw [rank, rank, depth_perm same distinct, timestampOf, timestampOf, find_perm same distinct]

end Delivery

end IronDag
