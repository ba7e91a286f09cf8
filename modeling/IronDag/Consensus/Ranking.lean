import IronDag.Consensus.GhostDag
import IronDag.Lib.RankedInsert
import Mathlib.Data.Prod.Lex

namespace IronDag

open RankedBlock List
open BitVec hiding hash

namespace GhostDag

/-- What both orderings compare: score, then timestamp. -/
def rankOf (dag : GhostDag) (hash : Hash) : U64 × U64 :=
  (dag.scoreOf hash, dag.timestampOf hash)

/-- Higher scores first, then later timestamps. -/
def LaterFirst (left right : U64 × U64) : Prop :=
  right.1 < left.1 ∨ left.1 = right.1 ∧ right.2 ≤ left.2

/-- Higher scores first, then earlier timestamps. -/
def EarlierFirst (left right : U64 × U64) : Prop :=
  right.1 < left.1 ∨ left.1 = right.1 ∧ left.2 ≤ right.2

instance : Std.Antisymm LaterFirst where
  antisymm left right := by
    rintro (higher | ⟨level, newer⟩) (lower | ⟨level', older⟩)
    · exact absurd (BitVec.lt_asymm higher lower) id
    · exact absurd higher (level' ▸ BitVec.lt_irrefl _)
    · exact absurd lower (level ▸ BitVec.lt_irrefl _)
    · exact Prod.ext level (BitVec.le_antisymm older newer)

instance : IsTrans RankedBlock Precedes where
  trans first second third := by
    simp only [Precedes, lt_def, le_def, ← toNat_inj]
    omega

instance : Std.Total Precedes where
  total left right := by
    simp only [Precedes, lt_def, le_def, ← toNat_inj]
    omega

/-- Higher scores first, then earlier times. -/
def SortedBy (dag : GhostDag) (time : Hash → U64) (list : List Hash) : Prop :=
  list.Pairwise fun left right =>
    EarlierFirst (dag.scoreOf left, time left) (dag.scoreOf right, time right)

/-- Only the scores and times of listed blocks matter. -/
theorem SortedBy.congr {dag other : GhostDag} (sorted : dag.SortedBy time list)
    (same : ∀ hash ∈ list, other.scoreOf hash = dag.scoreOf hash ∧ otherTime hash = time hash) :
    other.SortedBy otherTime list := by
  refine sorted.imp_of_mem fun {left right} inLeft inRight earlier => ?_
  rw [(same left inLeft).1, (same left inLeft).2, (same right inRight).1, (same right inRight).2]
  exact earlier

variable {dag : GhostDag} {hash : Hash} {search : BinarySearch}

/-- The full sort is a permutation of the blue set in ascending order of timestamps per score. -/
theorem sortedOrdering_spec {iteration : SetIteration Hash}
    (stored : ∀ hash ∈ dag.blueSet, ∃ block, dag.storage.getBlock hash = some block ∧
      time hash = block.header.timestamp) :
    (dag.sortedOrdering iteration).Perm (iteration.toList dag.blueSet) ∧
      dag.SortedBy time (dag.sortedOrdering iteration) := by
  let ranked : Hash → RankedBlock := fun hash =>
    { hash, score := dag.scoreOf hash, timestamp := time hash }
  have pairs : ((iteration.toList dag.blueSet).filterMap fun hash =>
      (dag.storage.getBlock hash).map fun block =>
        { hash, score := dag.scoreOf hash, timestamp := block.header.timestamp : RankedBlock }) =
      (iteration.toList dag.blueSet).map ranked := by
    rw [← filterMap_eq_map]
    apply filterMap_congr
    intro hash member
    obtain ⟨block, found, timestamp⟩ := stored hash ((iteration.mem_toList _ _).mp member)
    simp [found, ranked, timestamp]
  have shape : dag.sortedOrdering iteration =
      (((iteration.toList dag.blueSet).map ranked).insertionSort Precedes).map hash := by
    rw [← pairs]
    rfl
  have perm := perm_insertionSort Precedes ((iteration.toList dag.blueSet).map ranked)
  have sorted := pairwise_insertionSort Precedes ((iteration.toList dag.blueSet).map ranked)
  rw [shape]
  constructor
  · refine (perm.map hash).trans (Perm.of_eq ?_)
    rw [map_map]
    exact map_id _
  · rw [SortedBy, pairwise_map]
    refine sorted.imp_of_mem fun {left right} inLeft inRight precedes => ?_
    obtain ⟨leftHash, -, rfl⟩ := mem_map.mp (perm.mem_iff.mp inLeft)
    obtain ⟨rightHash, -, rfl⟩ := mem_map.mp (perm.mem_iff.mp inRight)
    exact precedes

/-- The comparator of the insertion compares these. -/
def rankKey (dag : GhostDag) (hash : Hash) : Lex (Nat × Nat) :=
  toLex ((dag.scoreOf hash).toNat, (dag.timestampOf hash).toNat)

theorem ordering_insertOrdered :
    (dag.insertOrdered search hash).ordering =
      search.insertRanked dag.rankKey dag.ordering hash := rfl

theorem rankKey_insertOrdered : (dag.insertOrdered search hash).rankKey = dag.rankKey := rfl

/-- The ordering is sorted the way the insertion sorts. -/
def Descends (dag : GhostDag) : Prop :=
  BinarySearch.Descending dag.rankKey dag.ordering

theorem Descends.insertOrdered (search : BinarySearch) (hash : Hash) (sorted : dag.Descends) :
    (dag.insertOrdered search hash).Descends := by
  exact search.descending_insertRanked dag.rankKey sorted hash

theorem Descends.of_sublist {before after : GhostDag} (sorted : before.Descends)
    (sublist : after.ordering.Sublist before.ordering)
    (same : ∀ hash ∈ after.ordering, after.rankKey hash = before.rankKey hash) :
    after.Descends := by
  refine (Pairwise.sublist sublist sorted).imp_of_mem fun {left right} inLeft inRight lower => ?_
  rw [same left inLeft, same right inRight]
  exact lower

/-- Where blocks of the inserted block's score carry its timestamp, only scores are compared. -/
theorem insertOrdered_of_simultaneous (search : BinarySearch)
    (simultaneous : ∀ probe ∈ dag.ordering, dag.scoreOf probe = dag.scoreOf hash →
      dag.timestampOf probe = dag.timestampOf hash) :
    (dag.insertOrdered search hash).ordering =
      search.insertRanked (fun probe => (dag.scoreOf probe).toNat) dag.ordering hash := by
  rw [ordering_insertOrdered]
  unfold BinarySearch.insertRanked BinarySearch.answers
  rw [map_congr_left (g := fun probe => compare (dag.scoreOf hash).toNat (dag.scoreOf probe).toNat)]
  intro probe member
  show (compare (dag.scoreOf hash).toNat (dag.scoreOf probe).toNat).then _ = _
  cases answered : compare (dag.scoreOf hash).toNat (dag.scoreOf probe).toNat with
  | lt | gt => rfl
  | eq =>
    have level := eq_of_toNat_eq (compare_eq_iff_eq.mp answered)
    exact compare_eq_iff_eq.mpr (congrArg BitVec.toNat (simultaneous probe member level.symm).symm)

/-- Then insertion also keeps an ordering with ascending times per score. -/
theorem SortedBy.insertOrdered (search : BinarySearch) (sorted : dag.SortedBy time dag.ordering)
    (simultaneous : ∀ probe ∈ dag.ordering, dag.scoreOf probe = dag.scoreOf hash →
      dag.timestampOf probe = dag.timestampOf hash ∧ time probe = time hash) :
    dag.SortedBy time (dag.insertOrdered search hash).ordering := by
  let score : Hash → Nat := fun probe => (dag.scoreOf probe).toNat
  have descending : BinarySearch.Descending score dag.ordering := by
    refine sorted.imp fun {left right} earlier => ?_
    simp only [EarlierFirst, lt_def, ← toNat_inj] at earlier
    show (dag.scoreOf right).toNat ≤ (dag.scoreOf left).toNat
    omega
  obtain ⟨front, back, split, placed⟩ := search.insertRanked_eq_append score dag.ordering hash
  have inserted := search.descending_insertRanked score descending hash
  rw [placed] at inserted
  obtain ⟨-, fromNew, aboveNew⟩ := pairwise_append.mp inserted
  rw [insertOrdered_of_simultaneous search fun probe member level =>
    (simultaneous probe member level).1]
  rw [split] at sorted simultaneous
  rw [show search.insertRanked (fun probe => (dag.scoreOf probe).toNat) dag.ordering hash =
    front ++ hash :: back from placed]
  obtain ⟨frontSorted, backSorted, across⟩ := pairwise_append.mp sorted
  -- a block beside the new one has another score, or the same time
  have after : ∀ other ∈ front,
      EarlierFirst (dag.scoreOf other, time other) (dag.scoreOf hash, time hash) := by
    intro other member
    have higher : (dag.scoreOf hash).toNat ≤ (dag.scoreOf other).toNat :=
      aboveNew other member hash mem_cons_self
    by_cases level : dag.scoreOf other = dag.scoreOf hash
    · have sameTime := (simultaneous other (mem_append_left _ member) level).2
      exact .inr ⟨level, sameTime ▸ BitVec.le_refl _⟩
    · refine .inl (lt_def.mpr (lt_of_le_of_ne higher fun same => level ?_))
      exact (eq_of_toNat_eq same).symm
  have ahead : ∀ other ∈ back,
      EarlierFirst (dag.scoreOf hash, time hash) (dag.scoreOf other, time other) := by
    intro other member
    have lower : (dag.scoreOf other).toNat ≤ (dag.scoreOf hash).toNat :=
      (pairwise_cons.mp fromNew).1 other member
    by_cases level : dag.scoreOf other = dag.scoreOf hash
    · have sameTime := (simultaneous other (mem_append_right _ member) level).2
      exact .inr ⟨level.symm, sameTime ▸ BitVec.le_refl _⟩
    · refine .inl (lt_def.mpr (lt_of_le_of_ne lower fun same => level ?_))
      exact eq_of_toNat_eq same
  refine pairwise_append.mpr ⟨frontSorted, pairwise_cons.mpr ⟨ahead, backSorted⟩, ?_⟩
  intro other member later afterwards
  rcases mem_cons.mp afterwards with rfl | beyond
  · exact after other member
  · exact across other member later beyond

end GhostDag

end IronDag
