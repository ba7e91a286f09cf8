import IronDag.Lib.Collections

/-! Insertion by binary search into a list that is kept in descending order of a rank. -/

namespace BinarySearch

open List Equiv

universe u v

variable {α : Type u} {κ : Type v} [LinearOrder κ] (search : BinarySearch) (rank : α → κ)

/-- What the comparator answers at each element of `list`, for an element to insert. -/
def answers (element : α) (list : List α) : List Ordering :=
  list.map fun probe => compare (rank element) (rank probe)

def insertRanked (list : List α) (element : α) : List α :=
  list.insertIdx (search.position (answers rank element list)) element

/-- The list that results from inserting elements one after the other. -/
def insertAll (elements : List α) : List α :=
  elements.foldl (search.insertRanked rank) []

/-- Highest rank first. -/
abbrev Descending (list : List α) : Prop :=
  list.Pairwise fun left right => rank right ≤ rank left

theorem insertIdx_middle (front back : List α) (element : α) :
    (front ++ back).insertIdx front.length element = front ++ element :: back := by
  induction front with
  | nil => simp
  | cons head rest ih => simp [ih]

/-- The element goes in somewhere, and everything else keeps its order. -/
theorem insertRanked_eq_append (list : List α) (element : α) :
    ∃ front back, list = front ++ back ∧
      search.insertRanked rank list element = front ++ element :: back := by
  have inside : search.position (answers rank element list) ≤ list.length := by
    simpa [answers] using search.position_le (answers rank element list)
  have cut := take_append_drop (search.position (answers rank element list)) list
  refine ⟨_, _, cut.symm, ?_⟩
  have placed := insertIdx_middle (list.take (search.position (answers rank element list)))
    (list.drop (search.position (answers rank element list))) element
  rwa [cut, length_take_of_le inside] at placed

theorem insertRanked_perm (list : List α) (element : α) :
    (search.insertRanked rank list element).Perm (element :: list) := by
  apply perm_insertIdx
  simpa [answers] using search.position_le (answers rank element list)

theorem foldl_insertRanked_perm (elements list : List α) :
    (elements.foldl (search.insertRanked rank) list).Perm (list ++ elements) := by
  induction elements generalizing list with
  | nil => simp
  | cons element rest ih =>
    refine (ih _).trans ?_
    refine ((search.insertRanked_perm rank list element).append_right rest).trans ?_
    exact perm_middle.symm

theorem insertAll_perm (elements : List α) : (search.insertAll rank elements).Perm elements := by
  simpa [insertAll] using search.foldl_insertRanked_perm rank elements []

theorem insertAll_append_singleton : search.insertAll rank (elements ++ [element]) =
      search.insertRanked rank (search.insertAll rank elements) element := by
  simp [insertAll]

variable {rank} in
/-- A sorted list falls into the elements ranked above, level with and below a given rank. -/
theorem Descending.split (sorted : Descending rank list) (bound : κ) :
    ∃ above level below, list = above ++ level ++ below ∧
      (∀ element ∈ above, bound < rank element) ∧
      (∀ element ∈ level, rank element = bound) ∧ (∀ element ∈ below, rank element < bound) := by
  induction list with
  | nil => exact ⟨[], [], [], by simp⟩
  | cons head rest ih =>
    obtain ⟨headMax, restSorted⟩ := pairwise_cons.mp sorted
    obtain ⟨above, level, below, rfl, aboveAll, levelAll, belowAll⟩ := ih restSorted
    rcases lt_trichotomy bound (rank head) with higher | same | lower
    · refine ⟨head :: above, level, below, by simp, ?_, levelAll, belowAll⟩
      intro element member
      rcases mem_cons.mp member with rfl | later
      · exact higher
      · exact aboveAll element later
    · have none_above : above = [] := by
        rw [eq_nil_iff_forall_not_mem]
        intro element member
        exact absurd (aboveAll element member)
          (not_lt.mpr (same ▸ headMax element (by simp [member])))
      subst none_above
      refine ⟨[], head :: level, below, by simp, by simp, ?_, belowAll⟩
      intro element member
      rcases mem_cons.mp member with rfl | later
      · exact same.symm
      · exact levelAll element later
    · have none_level : above ++ level = [] := by
        rw [eq_nil_iff_forall_not_mem]
        intro element member
        have bounded := headMax element (mem_append_left _ member)
        rcases mem_append.mp member with inAbove | inLevel
        · exact absurd (aboveAll element inAbove) (not_lt.mpr (bounded.trans lower.le))
        · exact absurd (levelAll element inLevel ▸ bounded) (not_le.mpr lower)
      obtain ⟨rfl, rfl⟩ := append_eq_nil_iff.mp none_level
      refine ⟨[], [], head :: below, by simp, by simp, by simp, ?_⟩
      intro element member
      rcases mem_cons.mp member with rfl | later
      · exact lower
      · exact belowAll element later

private theorem map_eq_replicate {β : Type v} {function : α → β} {list : List α} {value : β}
    (constant : ∀ element ∈ list, function element = value) :
    list.map function = replicate list.length value := by
  rw [eq_replicate_iff]
  simpa using constant

/-- Insertion keeps the list sorted, whichever of several level elements the search finds. -/
theorem descending_insertRanked (sorted : Descending rank list) (element : α) :
    Descending rank (search.insertRanked rank list element) := by
  obtain ⟨above, level, below, rfl, aboveAll, levelAll, belowAll⟩ := sorted.split (rank element)
  have split : answers rank element (above ++ level ++ below) =
      partitioned above.length level.length below.length := by
    simp only [answers, partitioned, map_append]
    rw [map_eq_replicate fun probe member => compare_lt_iff_lt.mpr (aboveAll probe member),
      map_eq_replicate fun probe member => compare_eq_iff_eq.mpr (levelAll probe member).symm,
      map_eq_replicate fun probe member => compare_gt_iff_gt.mpr (belowAll probe member)]
  obtain ⟨low, high⟩ := search.position_split above.length level.length below.length
  obtain ⟨count, placed⟩ := Nat.exists_eq_add_of_le low
  have inLevel : count ≤ level.length := by omega
  have length : (above ++ level.take count).length =
      search.position (partitioned above.length level.length below.length) := by
    rw [length_append, length_take, Nat.min_eq_left inLevel, placed]
  have cut : above ++ level ++ below =
      (above ++ level.take count) ++ (level.drop count ++ below) := by
    rw [append_assoc, append_assoc, ← append_assoc (level.take count), take_append_drop]
  unfold insertRanked
  rw [split, ← length, cut, insertIdx_middle]
  rw [cut] at sorted
  obtain ⟨frontSorted, backSorted, across⟩ := pairwise_append.mp sorted
  refine pairwise_append.mpr ⟨frontSorted, pairwise_cons.mpr ⟨?_, backSorted⟩, ?_⟩
  · intro other member
    rcases mem_append.mp member with same | lower
    · exact (levelAll other (mem_of_mem_drop same)).le
    · exact (belowAll other lower).le
  · intro other inFront later inBack
    rcases mem_cons.mp inBack with rfl | beyond
    · rcases mem_append.mp inFront with higher | same
      · exact (aboveAll other higher).le
      · exact (levelAll other (mem_of_mem_take same)).ge
    · exact across other inFront later beyond

theorem descending_insertAll (elements : List α) :
    Descending rank (search.insertAll rank elements) := by
  have general : ∀ (pending list : List α), Descending rank list →
      Descending rank (pending.foldl (search.insertRanked rank) list) := by
    intro pending
    induction pending with
    | nil => intro list sorted; exact sorted
    | cons element rest ih =>
      intro list sorted; exact ih _ (search.descending_insertRanked rank sorted element)
  exact general elements [] Pairwise.nil

/-- Inserting an element into a sorted list never lowers the rank at an index. -/
theorem rank_le_of_insert (sorted : Descending rank (front ++ element :: back))
    {index : Nat} (found : (front ++ back)[index]? = some before) :
    ∃ after, (front ++ element :: back)[index]? = some after ∧ rank before ≤ rank after := by
  by_cases early : index < front.length
  · refine ⟨before, ?_, le_rfl⟩
    rw [getElem?_append_left early] at found ⊢
    exact found
  · -- the old element has moved one place back
    have moved : (front ++ element :: back)[index + 1]? = some before := by
      rw [getElem?_append_right (by omega)] at found ⊢
      rw [Nat.sub_add_comm (by omega)]
      exact found
    obtain ⟨inside, atNext⟩ := List.getElem?_eq_some_iff.mp moved
    have here : index < (front ++ element :: back).length := by omega
    refine ⟨(front ++ element :: back)[index], getElem?_eq_getElem here, ?_⟩
    rw [← atNext]
    exact pairwise_iff_getElem.mp sorted index (index + 1) here inside (Nat.lt_succ_self _)

/-- Without equal ranks the order of insertion does not matter. -/
theorem insertAll_eq_of_perm (same : first.Perm second)
    (distinct : ∀ left ∈ first, ∀ right ∈ first, rank left = rank right → left = right) :
    search.insertAll rank first = search.insertAll rank second := by
  have firstPerm := search.insertAll_perm rank first
  refine (firstPerm.trans (same.trans (search.insertAll_perm rank second).symm)).eq_of_pairwise ?_
    (search.descending_insertAll rank first) (search.descending_insertAll rank second)
  intro left right inFirst inSecond forward backward
  exact distinct left (firstPerm.mem_iff.mp inFirst) right
    (same.mem_iff.mpr ((search.insertAll_perm rank second).mem_iff.mp inSecond))
      (le_antisymm backward forward)

variable {rank} in
theorem insertRanked_congr (same : ∀ item ∈ element :: list, rank item = other item) :
    search.insertRanked rank list element = search.insertRanked other list element := by
  unfold insertRanked answers
  rw [same element (by simp), map_congr_left fun probe member => by
    rw [same probe (by simp [member])]]

variable {rank} in
theorem insertAll_congr (same : ∀ item ∈ elements, rank item = other item) :
    search.insertAll rank elements = search.insertAll other elements := by
  induction elements using reverseRecOn with
  | nil => rfl
  | append_singleton front last ih =>
    rw [insertAll_append_singleton, insertAll_append_singleton,
      ih fun item member => same item (by simp [member])]
    apply insertRanked_congr
    intro item member
    apply same
    have inserted := (search.insertAll_perm other front).mem_iff (a := item)
    rcases mem_cons.mp member with rfl | earlier
    · simp
    · simp [inserted.mp earlier]

variable {rank} in
theorem insertAll_map (keeps : ∀ item, rank (rename item) = rank item) (elements : List α) :
    search.insertAll rank (elements.map rename) = (search.insertAll rank elements).map rename := by
  induction elements using reverseRecOn with
  | nil => rfl
  | append_singleton front last ih =>
    rw [map_append, map_singleton, insertAll_append_singleton, insertAll_append_singleton, ih]
    unfold insertRanked
    rw [map_insertIdx]
    simp [answers, keeps, Function.comp_def]

/-- Two elements of equal rank, delivered next to each other, keep a trace of their order. -/
theorem insertAll_exchange_ne [DecidableEq α]
    (distinct : (front ++ left :: right :: back).Nodup) (level : rank left = rank right) :
    search.insertAll rank (front ++ left :: right :: back) ≠
      search.insertAll rank (front ++ right :: left :: back) := by
  have keeps : ∀ item, rank (swap left right item) = rank item := by
    intro item
    rcases eq_or_ne item left with rfl | notLeft
    · rw [swap_apply_left, level]
    · rcases eq_or_ne item right with rfl | notRight
      · rw [swap_apply_right, level]
      · rw [swap_apply_of_ne_of_ne notLeft notRight]
  have shape : (left :: right :: (front ++ back)).Nodup :=
    (perm_middle.trans (perm_middle.cons left)).nodup_iff.mp distinct
  simp only [nodup_cons, mem_cons, not_or] at shape
  have different : left ≠ right := shape.1.1
  have apart : ∀ item ∈ front ++ back, item ≠ left ∧ item ≠ right := fun item member =>
    ⟨fun same => shape.1.2 (same ▸ member), fun same => shape.2.1 (same ▸ member)⟩
  have fixes : ∀ part : List α, (∀ item ∈ part, item ∈ front ++ back) →
      part.map (swap left right) = part := by
    intro part inside
    refine (map_congr_left fun item member => ?_).trans (map_id part)
    obtain ⟨notLeft, notRight⟩ := apart item (inside item member)
    exact swap_apply_of_ne_of_ne notLeft notRight
  have exchanged :
      front ++ right :: left :: back = (front ++ left :: right :: back).map (swap left right) := by
    rw [map_append, map_cons, map_cons, fixes front fun item member => by simp [member],
      fixes back fun item member => by simp [member], swap_apply_left, swap_apply_right]
  rw [exchanged, insertAll_map search keeps]
  -- a list that contains `left` is not fixed by the exchange
  intro fixed
  have present : left ∈ search.insertAll rank (front ++ left :: right :: back) :=
    (search.insertAll_perm rank _).mem_iff.mpr (by simp)
  have moved := map_eq_iff.mp fixed.symm
  obtain ⟨index, bound, found⟩ := getElem_of_mem present
  have atIndex := moved index
  rw [getElem?_eq_getElem bound, found, Option.map_some, swap_apply_left] at atIndex
  exact different (Option.some_inj.mp atIndex)

end BinarySearch
