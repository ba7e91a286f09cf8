import Mathlib.Data.List.Induction
import Mathlib.Order.MinMax

/-!
Heights in a finite acyclic graph: the number of nodes on the longest chain of parents that ends
in a node.
-/

namespace Height

open List

universe u

/-- The largest of finitely many numbers, zero for none. -/
def largest (numbers : List Nat) : Nat :=
  numbers.foldr max 0

theorem le_largest (member : number ∈ numbers) : number ≤ largest numbers := by
  induction numbers with
  | nil => simp at member
  | cons head rest ih =>
    rcases mem_cons.mp member with rfl | later
    · exact le_max_left _ _
    · exact (ih later).trans (le_max_right _ _)

theorem largest_le (below : ∀ number ∈ numbers, number ≤ bound) : largest numbers ≤ bound := by
  induction numbers with
  | nil => exact Nat.zero_le _
  | cons head rest ih =>
    exact max_le (below head (by simp)) (ih fun number member => below number (by simp [member]))

theorem largest_mem (nonempty : numbers ≠ []) : largest numbers ∈ numbers := by
  induction numbers with
  | nil => exact absurd rfl nonempty
  | cons head rest ih =>
    by_cases last : rest = []
    · subst last
      simp [largest]
    · rcases le_total head (largest rest) with below | above
      · rw [show largest (head :: rest) = largest rest from max_eq_right below]
        exact mem_cons_of_mem _ (ih last)
      · rw [show largest (head :: rest) = head from max_eq_left above]
        exact mem_cons_self

variable {α : Type u} (parents : α → List α)

/-- One more than the largest value of a parent. -/
def fromParents (value : α → Nat) (node : α) : Nat :=
  1 + largest ((parents node).map value)

/-- The height of a node, following parents for at most `fuel` steps. -/
def height : Nat → α → Nat
  | 0, _ => 0
  | fuel + 1, node => fromParents parents (height fuel) node

variable {parents}

theorem fromParents_congr (same : ∀ parent ∈ parents node, first parent = second parent) :
    fromParents parents first node = fromParents parents second node := by
  unfold fromParents
  rw [map_congr_left same]

section Ranked

variable {rank : α → Nat} (descends : ∀ node, ∀ parent ∈ parents node, rank parent < rank node)

include descends

theorem height_succ (enough : rank node < fuel) :
    height parents (fuel + 1) node = height parents fuel node := by
  induction fuel generalizing node with
  | zero => omega
  | succ fuel ih =>
    apply fromParents_congr
    intro parent isParent
    have lower := descends node parent isParent
    exact ih (by omega)

/-- With enough fuel the height is one more than the largest height of a parent. -/
theorem height_eq (enough : rank node < fuel) :
    height parents fuel node = fromParents parents (height parents fuel) node := by
  rw [← height_succ descends enough]
  rfl

/-- The recursion over parents determines the values on a set that parents do not leave. -/
theorem unique_on (nodes : α → Prop)
    (closed : ∀ node, nodes node → ∀ parent ∈ parents node, nodes parent)
    (firstEq : ∀ node, nodes node → first node = fromParents parents first node)
    (secondEq : ∀ node, nodes node → second node = fromParents parents second node) (node : α)
    (member : nodes node) : first node = second node := by
  induction level : rank node using Nat.strong_induction_on generalizing node with
  | _ level ih =>
    rw [firstEq node member, secondEq node member]
    apply fromParents_congr
    intro parent isParent
    have lower := descends node parent isParent
    exact ih (rank parent) (by omega) parent (closed node member parent isParent) rfl

end Ranked

theorem forall_of_before {order : List α} {motive : α → Prop}
    (step : ∀ before node after, order = before ++ node :: after →
      (∀ earlier ∈ before, motive earlier) → motive node) :
    ∀ node ∈ order, motive node := by
  suffices general : ∀ before after, order = before ++ after → ∀ node ∈ before, motive node from
    general order [] (by simp)
  intro before
  induction before using reverseRecOn with
  | nil => simp
  | append_singleton front last ih =>
    intro after split node member
    have shape : order = front ++ last :: after := by simpa using split
    have earlier := ih (last :: after) shape
    rcases mem_append.mp member with old | new
    · exact earlier node old
    · exact mem_singleton.mp new ▸ step front last after shape earlier

section Along

variable [DecidableEq α] (parents)

/-- Every node got its value from those parents that stand before it in the order. -/
def ScoredAlong (order : List α) (value : α → Nat) : Prop :=
  ∀ before node after, order = before ++ node :: after →
    value node = 1 + largest (((parents node).filter (· ∈ before)).map value)

/-- Every node with parents has one of the largest value before it. -/
def LargestBefore (order : List α) (value : α → Nat) : Prop :=
  ∀ before node after, order = before ++ node :: after → parents node ≠ [] →
    ∃ parent ∈ parents node, parent ∈ before ∧ value node = 1 + value parent

variable {parents}

theorem ScoredAlong.append_singleton (scored : ScoredAlong parents order value)
    (fresh : node ∉ order) : ScoredAlong parents (order ++ [node]) (Function.update value node
      (1 + largest (((parents node).filter (· ∈ order)).map value))) := by
  -- the new value is not among those the old ones were computed from
  have unchanged : ∀ list before : List α, (∀ item ∈ before, item ∈ order) → ∀ new,
      (list.filter (· ∈ before)).map (Function.update value node new) =
        (list.filter (· ∈ before)).map value := by
    intro list before inside new
    refine map_congr_left fun item member => Function.update_of_ne ?_ _ _
    rintro rfl
    exact fresh (inside item (by simpa using (mem_filter.mp member).2))
  intro before current after split
  rcases eq_nil_or_concat after with rfl | ⟨rest, last, rfl⟩
  · obtain ⟨rfl, same⟩ := append_inj' split rfl
    rw [← (cons.inj same).1, Function.update_self, unchanged _ _ fun item member => member]
  · have shape : order ++ [node] = (before ++ current :: rest) ++ [last] := by
      simpa using split
    have front := (append_inj' shape rfl).1
    have different : current ≠ node := by
      rintro rfl
      exact fresh (by simp [front])
    rw [Function.update_of_ne different, scored before current rest front,
      unchanged _ _ fun item member => by simp [front, member]]

section Reference

variable {order : List α} {value reference : α → Nat} (scored : ScoredAlong parents order value)
  (equation : ∀ node ∈ order, reference node = fromParents parents reference node)

include scored equation

theorem ScoredAlong.le_reference : ∀ node ∈ order, value node ≤ reference node := by
  refine forall_of_before fun front node after shape earlier => ?_
  rw [scored front node after shape, equation node (by simp [shape])]
  refine Nat.add_le_add_left (largest_le ?_) 1
  simp only [mem_map, mem_filter, decide_eq_true_eq]
  rintro number ⟨parent, ⟨isParent, isEarlier⟩, rfl⟩
  exact (earlier parent isEarlier).trans (le_largest (mem_map_of_mem isParent))

/-- The values along the order are the true ones exactly if no node comes before all of its
largest parents. -/
theorem ScoredAlong.eq_reference_iff
    (closed : ∀ node ∈ order, ∀ parent ∈ parents node, parent ∈ order) :
    (∀ node ∈ order, value node = reference node) ↔ LargestBefore parents order reference := by
  constructor
  · intro exactly before node after split hasParents
    have member : node ∈ order := by simp [split]
    have earlier : ∀ parent ∈ (parents node).filter (· ∈ before), value parent =
        reference parent := by
      intro parent isParent
      exact exactly parent (by simp_all)
    have own := scored before node after split
    rw [exactly node member, map_congr_left earlier] at own
    by_cases none : (parents node).filter (· ∈ before) = []
    · -- without an earlier parent the value would be 1, but parents have a positive height
      obtain ⟨parent, isParent⟩ := exists_mem_of_ne_nil _ hasParents
      have bound : reference parent ≤ largest ((parents node).map reference) :=
        le_largest (mem_map_of_mem isParent)
      have positive : 1 ≤ reference parent := by
        rw [equation parent (closed node member parent isParent)]
        exact Nat.le_add_right 1 _
      have total : reference node = 1 + largest ((parents node).map reference) :=
        equation node member
      have alone : reference node = 1 := by simpa [none, largest] using own
      omega
    · have nonempty : ((parents node).filter (· ∈ before)).map reference ≠ [] := by simpa using none
      obtain ⟨parent, isParent, same⟩ := mem_map.mp (largest_mem nonempty)
      obtain ⟨isParent, isEarlier⟩ := mem_filter.mp isParent
      exact ⟨parent, isParent, by simpa using isEarlier, by rw [own, same]⟩
  · intro largestBefore
    refine forall_of_before fun front node after shape earlier => ?_
    have inOrder : node ∈ order := by simp [shape]
    refine le_antisymm (scored.le_reference equation node inOrder) ?_
    by_cases root : parents node = []
    · rw [scored front node after shape, equation node inOrder, fromParents, root]
      rfl
    · obtain ⟨parent, isParent, isEarlier, level⟩ := largestBefore front node after shape root
      rw [level, scored front node after shape, ← earlier parent isEarlier]
      exact Nat.add_le_add_left (le_largest (mem_map_of_mem (by simp [isParent, isEarlier]))) 1

end Reference

end Along

end Height
