import Mathlib.Data.List.Perm.Lattice
import Mathlib.Data.List.Sublists

/-! Steps that commute, and the reorderings of a run that cannot be told from it. -/

universe u v w

namespace Commutation

open List hiding head

variable {State : Type u} {Item : Type v} {Answer : Type w}

/-- The state after a list of items, with the answer to each of them. -/
def runAll (step : State → Item → State × Answer) : State → List Item → State × List (Item × Answer)
  | state, [] => (state, [])
  | state, item :: rest =>
    let (next, answer) := step state item
    let (last, answers) := runAll step next rest
    (last, (item, answer) :: answers)

/-- Running the two items in either order cannot be told apart. -/
structure Independent (step : State → Item → State × Answer) (left right : Item) : Prop where
  sameState : ∀ state, (step (step state left).1 right).1 = (step (step state right).1 left).1
  leftAnswer : ∀ state, (step (step state right).1 left).2 = (step state left).2
  rightAnswer : ∀ state, (step (step state left).1 right).2 = (step state right).2

/-- Same last state, and the same answer to every item. -/
def Alike (left right : State × List (Item × Answer)) : Prop :=
  left.1 = right.1 ∧ left.2.Perm right.2

theorem Alike.refl (outcome : State × List (Item × Answer)) :
    Alike outcome outcome := ⟨rfl, Perm.refl _⟩

theorem Alike.trans {first second third : State × List (Item × Answer)}
    (left : Alike first second) (right : Alike second third) : Alike first third :=
  ⟨left.1.trans right.1, left.2.trans right.2⟩

variable {step : State → Item → State × Answer}

theorem Alike.cons {state : State} {left right : List Item} (item : Item)
    (alike : Alike (runAll step (step state item).1 left) (runAll step (step state item).1 right)) :
    Alike (runAll step state (item :: left)) (runAll step state (item :: right)) := by
  exact ⟨alike.1, alike.2.cons _⟩

theorem alike_swap (independent : Independent step left right) (state : State) (rest : List Item) :
    Alike (runAll step state (left :: right :: rest))
      (runAll step state (right :: left :: rest)) := by
  simp only [runAll, independent.sameState, independent.leftAnswer, independent.rightAnswer]
  exact ⟨rfl, Perm.swap _ _ _⟩

/-- An item that is independent of all items in front of it may be run before them. -/
theorem alike_moveFront (back : List Item)
    (independent : ∀ other ∈ front, Independent step other item) (state : State) :
    Alike (runAll step state (front ++ item :: back))
      (runAll step state (item :: (front ++ back))) := by
  induction front generalizing state with
  | nil => exact Alike.refl _
  | cons head rest ih =>
    have moved :=
      ih (fun other among => independent other (mem_cons_of_mem _ among)) (step state head).1
    exact (Alike.cons head moved).trans
      (alike_swap (independent head mem_cons_self) state (rest ++ back))

/-- `left` stands somewhere before `right` in the list. -/
def Before (items : List Item) (left right : Item) : Prop :=
  [left, right].Sublist items

theorem before_of_mem {left right : Item} (leftIn : left ∈ front)
    (rightIn : right ∈ back) : Before (front ++ back) left right :=
  Sublist.append (singleton_sublist.mpr leftIn) (singleton_sublist.mpr rightIn)

theorem not_before_head (nodup : (head :: rest).Nodup) (other : Item) :
    ¬ Before (head :: rest) other head := by
  intro before
  have absent := (nodup_cons.mp nodup).1
  cases before with
  | cons _ later => exact absent (later.subset (by simp))
  | cons_cons _ later => exact absent (singleton_sublist.mp later)

theorem Before.of_cons {rest : List Item} (distinct : left ≠ head)
    (before : Before (head :: rest) left right) : Before rest left right := by
  cases before with
  | cons _ later => exact later
  | cons_cons _ _ => exact absurd rfl distinct

/-- A reordering that keeps the order of every two items that are not independent answers every
item as the original order does and ends in the same state. -/
theorem runAll_of_reordered (nodup : reordered.Nodup) (same : original.Perm reordered)
    (kept : ∀ left right, Before original left right → ¬ Before reordered left right →
      Independent step left right) (state : State) :
    Alike (runAll step state original) (runAll step state reordered) := by
  -- The first item of the reordering is moved to the front of the original list.
  induction reordered generalizing original state with
  | nil =>
    rw [Perm.eq_nil same]
    exact Alike.refl _
  | cons head rest ih =>
    obtain ⟨front, back, rfl⟩ := append_of_mem (same.mem_iff.mpr mem_cons_self)
    have free : ∀ other ∈ front, Independent step other head := by
      intro other among
      exact kept other head (before_of_mem among mem_cons_self) (not_before_head nodup other)
    have remaining : (front ++ back).Perm rest := Perm.cons_inv (perm_middle.symm.trans same)
    have fresh : head ∉ rest := (nodup_cons.mp nodup).1
    refine (alike_moveFront back free state).trans (Alike.cons head ?_)
    refine ih (nodup_cons.mp nodup).2 remaining ?_ (step state head).1
    intro left right before notBefore
    have leftIn : left ∈ front ++ back := before.subset (by simp)
    have distinct : left ≠ head := fun same => fresh (remaining.mem_iff.mp (same ▸ leftIn))
    refine kept left right ?_ (fun later => notBefore (later.of_cons distinct))
    exact before.trans (Sublist.append_left (sublist_cons_self head back) front)

/-- Everything an item of a batch waits for is done before the batch starts. -/
def Staged (waitsFor : Item → Item → Prop) : List Item → List (List Item) → Prop
  | _, [] => True
  | executed, batch :: later =>
    (∀ item ∈ batch, ∀ awaited, waitsFor item awaited → awaited ∈ executed) ∧
      Staged waitsFor (executed ++ batch) later

theorem Staged.mono {few many : List Item} (staged : Staged waitsFor few batches)
    (more : few ⊆ many) : Staged waitsFor many batches := by
  induction batches generalizing few many with
  | nil => exact staged
  | cons batch later ih =>
    refine ⟨fun item among awaited waits => more (staged.1 item among awaited waits), ?_⟩
    exact ih staged.2
      (append_subset.mpr ⟨Subset.trans more (subset_append_left _ _), subset_append_right _ _⟩)

/-- Whatever the order inside the batches, an item comes after all it waits for. -/
theorem Staged.before (staged : Staged waitsFor executed batches)
    (shuffled : Forall₂ Perm orders batches) {item awaited : Item}
    (among : item ∈ orders.flatten) (waits : waitsFor item awaited) :
    Before (executed ++ orders.flatten) awaited item := by
  induction shuffled generalizing executed with
  | nil => cases among
  | @cons order batch orders batches same _ ih =>
    rcases mem_append.mp among with now | later
    · have done := staged.1 item (same.mem_iff.mp now) awaited waits
      exact before_of_mem done (mem_append_left _ now)
    · have alike : executed ++ batch ⊆ executed ++ order :=
        append_subset.mpr
          ⟨subset_append_left _ _, Subset.trans same.symm.subset (subset_append_right _ _)⟩
      have done := ih (staged.2.mono alike) later
      rwa [append_assoc] at done

theorem flatten_perm_of_shuffled {batches orders : List (List Item)}
    (shuffled : Forall₂ Perm orders batches) : orders.flatten.Perm batches.flatten := by
  induction shuffled with
  | nil => exact Perm.refl _
  | cons same _ ih => exact same.append ih

end Commutation
