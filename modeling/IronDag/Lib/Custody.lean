import Mathlib.Algebra.BigOperators.Group.Finset.Basic
import Mathlib.Data.Multiset.Bind
import Mathlib.Tactic.Abel

/-!
Custody of items: a finite family of places that hold something each, and a pool of tasks that carry
items while they are under way.
-/

universe u v w

namespace Custody

section Places

variable {ι : Type u} {M : Type v} [AddCommMonoid M] {places : Finset ι} {before after : ι → M}

theorem sum_replace (known : place ∈ places)
    (others : ∀ other ∈ places, other ≠ place → after other = before other) :
    ∑ other ∈ places, after other + before place =
      ∑ other ∈ places, before other + after place := by
  classical
  have rest : ∑ other ∈ places.erase place, after other =
      ∑ other ∈ places.erase place, before other :=
    Finset.sum_congr rfl fun other member =>
      others other (Finset.mem_of_mem_erase member) (Finset.ne_of_mem_erase member)
  rw [← Finset.add_sum_erase places after known, ← Finset.add_sum_erase places before known, rest]
  abel

end Places

section Tasks

variable {τ : Type u} {α : Type v} [DecidableEq τ]

/-- The tasks after one of them went on as other tasks. -/
def replace (tasks : Multiset τ) (task : τ) (next : Multiset τ) : Multiset τ :=
  next + tasks.erase task

theorem bind_replace (carried : τ → Multiset α) (next : Multiset τ) (member : task ∈ tasks) :
    (replace tasks task next).bind carried + carried task =
      tasks.bind carried + next.bind carried := by
  conv_rhs => rw [← Multiset.cons_erase member, Multiset.cons_bind]
  rw [replace, Multiset.add_bind]
  abel

theorem forall_replace {property : τ → Prop} (held : ∀ other ∈ tasks, property other)
    (new : ∀ other ∈ next, property other) : ∀ other ∈ replace tasks task next, property other := by
  intro other found
  rcases Multiset.mem_add.mp found with added | kept
  · exact new other added
  · exact held other (Multiset.mem_of_mem_erase kept)

end Tasks

end Custody
