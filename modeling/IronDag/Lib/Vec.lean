import Mathlib.Data.List.Pairwise
import Mathlib.Data.List.Perm.Subperm

universe u

namespace Vec

open List

variable {α : Type u}

/-- The elements without the one at `index`, whose place the last element takes. -/
def swapRemove (elements : List α) (index : ℕ) : List α :=
  match elements.getLast? with
  | none => []
  | some last => (elements.set index last).dropLast

def swap (elements : List α) (first second : ℕ) : List α :=
  match elements[first]?, elements[second]? with
  | some low, some high => (elements.set first high).set second low
  | _, _ => elements

def sortBy (compare : α → α → Ordering) (elements : List α) : List α :=
  elements.mergeSort fun left right => compare left right != .gt

theorem sortBy_perm {compare : α → α → Ordering} {elements : List α} :
    (sortBy compare elements).Perm elements :=
  mergeSort_perm _ _

section Stable

variable {compare : α → α → Ordering} {elements : List α}

/-- What compares neither way as greater keeps its place. -/
theorem pairwise_sortBy_iff {R : α → α → Prop}
    (trans : ∀ first second third, compare first second ≠ .gt → compare second third ≠ .gt →
      compare first third ≠ .gt)
    (total : ∀ left right, compare left right ≠ .gt ∨ compare right left ≠ .gt) :
    (sortBy compare elements).Pairwise R ↔ elements.Pairwise fun earlier later =>
      if compare earlier later = .gt then R later earlier else R earlier later := by
  have trans' : ∀ first second third, (compare first second != .gt) = true →
      (compare second third != .gt) = true →
      (compare first third != .gt) = true := by simpa using trans
  have total' : ∀ left right, (compare left right != .gt || compare right left != .gt) =
      true := by simpa using total
  have sorted : ∀ {left right}, [left, right] <+ sortBy compare elements →
      compare left right ≠ .gt := fun pair => by
    simpa using pairwise_iff_forall_sublist.mp (pairwise_mergeSort trans' total' elements) pair
  have either : ∀ {one other : List α}, one.Perm other → ∀ {left right}, [left, right] <+ one →
      [left, right] <+ other ∨ [right, left] <+ other := by
    intro one other perm left right pair
    obtain ⟨found, shape, inside⟩ := pair.subperm.trans perm.subperm
    obtain ⟨first, second, rfl⟩ := length_eq_two.mp shape.length_eq
    rcases mem_pair.mp (shape.subset mem_cons_self) with rfl | rfl
    · cases perm_singleton.mp ((perm_cons _).mp shape)
      exact .inl inside
    · cases perm_singleton.mp ((perm_cons _).mp (shape.trans (Perm.swap _ _ _)))
      exact .inr inside
  have tied : ∀ {left right}, [left, right] <+ sortBy compare elements → compare right left ≠ .gt →
      [left, right] <+ elements := by
    intro left right pair back
    let alike : α → Bool := fun item => compare left item != .gt && compare item left != .gt
    have level :
        (elements.filter alike).Pairwise fun one other => (compare one other != .gt) = true := by
      refine pairwise_iff_forall_sublist.mpr fun {one other} both => ?_
      have alikes := fun item member => (mem_filter.mp (both.subset (a := item) member)).2
      have below := (Bool.and_eq_true_iff.mp (alikes one (by simp))).2
      have above := (Bool.and_eq_true_iff.mp (alikes other (by simp))).1
      exact trans' _ _ _ below above
    have kept : elements.filter alike <+ (sortBy compare elements).filter alike := by
      simpa [sortBy] using (sublist_mergeSort trans' total' level filter_sublist).filter alike
    have same := kept.eq_of_length (sortBy_perm.filter alike).length_eq.symm
    have inside := pair.filter alike
    rw [filter_eq_self.mpr, ← same] at inside
    · exact inside.trans filter_sublist
    · have self := total left left
      simp [alike, sorted pair, back, or_self_iff.mp self]
  simp only [pairwise_iff_forall_sublist]
  constructor
  · intro ordered left right pair
    split
    · next greater =>
      rcases either sortBy_perm.symm pair with kept | turned
      · exact absurd greater (sorted kept)
      · exact ordered turned
    · next notGreater =>
      refine ordered (pair_sublist_mergeSort trans' total' (by simpa using notGreater) pair)
  · intro ordered left right pair
    have notGreater := sorted pair
    by_cases greater : compare right left = .gt
    · rcases either sortBy_perm pair with kept | turned
      · simpa [notGreater] using ordered kept
      · simpa [greater] using ordered turned
    · simpa [notGreater] using ordered (tied pair greater)

/-- The same, with an order on the elements only. -/
theorem pairwise_sortBy_iff_of_mem {R : α → α → Prop}
    (trans : ∀ first ∈ elements, ∀ second ∈ elements, ∀ third ∈ elements,
      compare first second ≠ .gt → compare second third ≠ .gt → compare first third ≠ .gt)
    (total : ∀ left right, compare left right ≠ .gt ∨ compare right left ≠ .gt) :
    (sortBy compare elements).Pairwise R ↔ elements.Pairwise fun earlier later =>
      if compare earlier later = .gt then R later earlier else R earlier later := by
  have shape : sortBy compare elements = (sortBy (fun left right : { item // item ∈ elements } =>
      compare left right) elements.attach).map Subtype.val := by
    rw [sortBy, sortBy,
      map_mergeSort (s := fun left right => compare left right != .gt) fun _ _ _ _ => rfl,
      attach_map_subtype_val]
  have onMembers := @pairwise_sortBy_iff _
    (fun left right : { item // item ∈ elements } => compare left right)
    elements.attach (fun left right => R left right)
    (fun first second third => trans first first.2 second second.2 third third.2)
    fun left right => total left right
  have unattached :=
    pairwise_map (l := elements.attach) (f := Subtype.val) (R := fun earlier later : α =>
    if compare earlier later = .gt then R later earlier else R earlier later)
  rw [attach_map_subtype_val] at unattached
  rw [shape, pairwise_map, onMembers, unattached]

end Stable

theorem swap_perm {first second : ℕ} : (swap elements first second).Perm elements := by
  unfold swap
  split
  · rename_i low high readFirst readSecond
    obtain ⟨firstBound, rfl⟩ := List.getElem?_eq_some_iff.mp readFirst
    obtain ⟨secondBound, rfl⟩ := List.getElem?_eq_some_iff.mp readSecond
    exact set_set_perm firstBound secondBound
  · exact Perm.refl _

theorem swapRemove_perm {element : α} (read : elements[index]? = some element) :
    (element :: swapRemove elements index).Perm elements := by
  obtain ⟨bound, rfl⟩ := List.getElem?_eq_some_iff.mp read
  unfold swapRemove
  cases found : elements.getLast? with
  | none =>
    rw [getLast?_eq_none_iff] at found
    simp [found] at bound
  | some last =>
    have lastStays : last ∈ (elements.set index last).getLast? := by
      rw [getLast?_eq_getElem?, length_set, getElem?_set]
      rw [getLast?_eq_getElem?] at found
      split
      · simp
      · exact found
    have others : (elements.set index last).dropLast.Perm (elements.eraseIdx index) := by
      refine (perm_cons last).mp ?_
      refine (perm_append_singleton last _).symm.trans ?_
      rw [dropLast_append_getLast? last lastStays]
      exact set_perm_cons_eraseIdx bound last
    exact (others.cons _).trans (getElem_cons_eraseIdx_perm bound)

/-- A filter whose test always answers is the plain filter. -/
theorem filterM_map_eq_some {test : β → Option Bool}
    {elements : List α}
    (answers : ∀ element ∈ elements, test (key element) = some (passes element)) :
    (elements.map key).filterM test = some ((elements.filter passes).map key) := by
  have collected : ∀ (rest : List α) (kept : List β),
      (∀ element ∈ rest, test (key element) = some (passes element)) →
      (rest.map key).filterAuxM test kept =
        some (((rest.filter passes).map key).reverse ++ kept) := by
    intro rest
    induction rest with
    | nil => intro kept _; rfl
    | cons element others ih =>
      intro kept known
      have first := known element mem_cons_self
      have later := fun kept => ih kept fun other among => known other (mem_cons_of_mem _ among)
      rw [map_cons, filterAuxM, first]
      cases passed : passes element with
      | true => simpa [passed] using later (key element :: kept)
      | false => simpa [passed] using later kept
  rw [filterM, collected elements [] answers]
  simp

end Vec
