import Mathlib.Data.Finset.Basic
import Mathlib.Data.List.Sort

/-!
The open points of the standard collections: in which order a hash set is iterated, and which of
several equal elements a binary search finds.
-/

universe u

/-- One iteration over a hash set: every element once, in an order the set does not fix. -/
structure SetIteration (α : Type u) where
  toList : Finset α → List α
  nodup : ∀ set, (toList set).Nodup
  mem_toList : ∀ set element, element ∈ toList set ↔ element ∈ set

namespace SetIteration

variable {α : Type u} (iteration : SetIteration α)

@[simp] theorem toList_empty : iteration.toList ∅ = [] := by
  rw [List.eq_nil_iff_forall_not_mem]
  intro element member
  simpa using (iteration.mem_toList ∅ element).mp member

@[simp] theorem toList_singleton [DecidableEq α] : iteration.toList {element} = [element] := by
  have perm : (iteration.toList {element}).Perm [element] :=
    (List.perm_ext_iff_of_nodup (iteration.nodup _) (List.nodup_singleton _)).mpr fun other => by
      simp [iteration.mem_toList]
  exact List.perm_singleton.mp perm

/-- Iteration in ascending order. -/
def sortedBy (r : α → α → Prop) [DecidableRel r] [IsTrans α r] [Std.Antisymm r] [Std.Total r] :
    SetIteration α where
  toList := fun set => Quot.liftOn set.val (List.insertionSort r) fun left right same =>
    ((List.perm_insertionSort _ left).trans
      (same.trans (List.perm_insertionSort _ right).symm)).eq_of_pairwise'
        (List.pairwise_insertionSort _ left) (List.pairwise_insertionSort _ right)
  nodup := fun set => by
    obtain ⟨⟨elements⟩, distinct⟩ := set
    exact (List.perm_insertionSort _ elements).nodup_iff.mpr distinct
  mem_toList := fun set element => by
    obtain ⟨⟨elements⟩, distinct⟩ := set
    exact (List.perm_insertionSort _ elements).mem_iff

section Ascending

variable (key : α → Nat)

def KeyLE (left right : α) : Prop :=
  key left ≤ key right

instance : DecidableRel (KeyLE key) := fun left right =>
    inferInstanceAs (Decidable (key left ≤ key right))

instance : IsTrans α (KeyLE key) := ⟨fun _ _ _ => Nat.le_trans⟩

instance : Std.Total (KeyLE key) := ⟨fun left right => Nat.le_total (key left) (key right)⟩

/-- Iteration in ascending order of an injective key. -/
def ascendingBy (injective : Function.Injective key) : SetIteration α :=
  have : Std.Antisymm (KeyLE key) :=
    ⟨fun _ _ below above => injective (Nat.le_antisymm below above)⟩
  sortedBy (KeyLE key)

end Ascending

section Stable

open List

variable {r : α → α → Prop} [DecidableRel r] [IsTrans α r] (keep : α → Bool)

theorem filter_orderedInsert {sorted : List α} (ordered : sorted.Pairwise r) (new : α) :
    (sorted.orderedInsert r new).filter keep =
      if keep new then (sorted.filter keep).orderedInsert r new else sorted.filter keep := by
  induction sorted with
  | nil => by_cases kept : keep new = true <;> simp [kept]
  | cons head rest ih =>
    obtain ⟨below, ordered⟩ := pairwise_cons.mp ordered
    have front : r new head → (rest.filter keep).orderedInsert r new = new :: rest.filter keep := by
      intro first
      cases shape : rest.filter keep with
      | nil => rfl
      | cons next others =>
        have listed : next ∈ rest := mem_of_mem_filter (shape ▸ mem_cons_self)
        exact orderedInsert_cons_of_le r others (IsTrans.trans _ _ _ first (below next listed))
    grind

/-- What is kept is sorted as it would be on its own. -/
theorem filter_insertionSort [Std.Total r] (elements : List α) :
    (elements.insertionSort r).filter keep = (elements.filter keep).insertionSort r := by
  induction elements with
  | nil => rfl
  | cons head rest ih =>
    rw [insertionSort_cons, filter_orderedInsert keep (pairwise_insertionSort r rest),
      ih, filter_cons]
    split <;> rfl

end Stable

end SetIteration

/-- Comparator answers on a sorted slice: elements smaller than the target, equal, and greater. -/
def partitioned (smaller equal greater : Nat) : List Ordering :=
  List.replicate smaller .lt ++ List.replicate equal .eq ++ List.replicate greater .gt

/-- The outcome of `binary_search_by` on a slice, as a function of what the comparator answers at
each index: where the element is, or where it can be inserted. On a sorted slice it is the index
of one of the equal elements, or the end of the smaller ones. On other slices it is an arbitrary
index. -/
structure BinarySearch where
  position : List Ordering → Nat
  position_le : ∀ answers, position answers ≤ answers.length
  position_split : ∀ smaller equal greater,
    smaller ≤ position (partitioned smaller equal greater) ∧
      position (partitioned smaller equal greater) ≤ smaller + (equal - 1)

namespace BinarySearch

/-- Halving: keep the upper half unless its first element is greater. -/
def narrow (answers : List Ordering) : Nat → Nat → Nat → Nat
  | 0, base, _ => base
  | fuel + 1, base, size =>
    if size ≤ 1 then
      base
    else
      let half := size / 2
      let middle := base + half
      narrow answers fuel (if answers.getD middle .gt = .gt then base else middle) (size - half)

/-- The search of the standard library. -/
def standardPosition (answers : List Ordering) : Nat :=
  if answers = [] then
    0
  else
    let base := narrow answers answers.length 0 answers.length
    if answers.getD base .gt = .lt then base + 1 else base

theorem narrow_lt {answers : List Ordering} (positive : 0 < size) :
    narrow answers fuel base size < base + size := by
  induction fuel generalizing base size with
  | zero => simpa [narrow] using positive
  | succ fuel ih =>
    unfold narrow
    split
    · omega
    · have remains : 0 < size - size / 2 := by omega
      dsimp only
      split <;> exact (ih remains).trans_le (by omega)

/-- Below `bound` no answer is `gt`, from `bound` on all are. The result is the last index below
`bound`, or index 0. -/
theorem narrow_spec {answers : List Ordering}
    (below : ∀ index, answers.getD index .gt = .gt ↔ bound ≤ index)
    (enough : size ≤ fuel + 1) (positive : 0 < size) (lower : base = 0 ∨ base < bound)
    (upper : bound ≤ base + size) :
    (narrow answers fuel base size = 0 ∨ narrow answers fuel base size < bound) ∧
      bound ≤ narrow answers fuel base size + 1 := by
  induction fuel generalizing base size with
  | zero =>
    have single : size = 1 := by omega
    subst single
    exact ⟨lower, upper⟩
  | succ fuel ih =>
    unfold narrow
    split
    · have single : size = 1 := by omega
      subst single
      exact ⟨lower, upper⟩
    · have shrunk : size - size / 2 ≤ fuel + 1 := by omega
      have remains : 0 < size - size / 2 := by omega
      dsimp only
      split
      · rename_i beyond
        have passed := (below _).mp beyond
        exact ih shrunk remains lower (by omega)
      · rename_i within
        rw [below] at within
        exact ih shrunk remains (.inr (by omega)) (by omega)

private theorem getD_partitioned {smaller index : Nat} :
    (partitioned smaller equal greater).getD index .gt =
      if index < smaller then .lt else if index < smaller + equal then .eq else .gt := by
  simp only [partitioned, List.getD_eq_getElem?_getD, List.getElem?_append, List.length_append,
    List.length_replicate, List.getElem?_replicate]
  split_ifs <;> first | rfl | omega

/-- The binary search of the standard library, which finds the last of several equal elements. -/
def standard : BinarySearch where
  position := standardPosition
  position_le := by
    intro answers
    unfold standardPosition
    split
    · simp
    · rename_i nonempty
      have inside : narrow answers answers.length 0 answers.length < 0 + answers.length :=
        narrow_lt (List.length_pos_iff.mpr nonempty)
      dsimp only
      split <;> omega
  position_split := by
    intro smaller equal greater
    unfold standardPosition
    split
    · rename_i empty
      simp only [partitioned, List.append_eq_nil_iff, List.replicate_eq_nil_iff] at empty
      omega
    · rename_i nonempty
      have positive := List.length_pos_iff.mpr nonempty
      have below : ∀ index, (partitioned smaller equal greater).getD index .gt = .gt ↔
          smaller + equal ≤ index := by
        intro index
        rw [getD_partitioned]
        split_ifs <;> simp <;> omega
      have total : smaller + equal ≤ 0 + (partitioned smaller equal greater).length := by
        simp [partitioned]
      obtain ⟨low, high⟩ := narrow_spec below (Nat.le_succ _) positive (.inl rfl) total
      have short : ∀ index, (partitioned smaller equal greater).getD index .gt = .lt ↔
          index < smaller := by
        intro index
        rw [getD_partitioned]
        split_ifs <;> simp <;> omega
      simp only [short]
      split <;> omega

end BinarySearch
