import Mathlib.Algebra.BigOperators.Ring.Finset
import Mathlib.Data.Fintype.BigOperators

/-!
Movements of value between holders: one holder gives an amount to another or to nobody, and some
holder, possibly one of the two, pays a fee that leaves all holdings.
-/

universe u

structure Movement (ι : Type u) where
  sender : ι
  /-- Nobody receives an amount that is burned. -/
  receiver : Option ι
  payer : ι
  value : Nat
  fee : Nat

namespace Movement

open Finset

variable {ι : Type u} [DecidableEq ι] (movement : Movement ι)

/-- What a holder gives. -/
def debit (holder : ι) : Nat :=
  (if holder = movement.sender then movement.value else 0) + (if holder =
    movement.payer then movement.fee else 0)

/-- What a holder gets. -/
def credit (holder : ι) : Nat :=
  if movement.receiver = some holder then movement.value else 0

def change (holder : ι) : Int :=
  movement.credit holder - movement.debit holder

/-- What leaves the holdings altogether. -/
def lost : Nat :=
  movement.fee + (if movement.receiver = none then movement.value else 0)

theorem change_eq_zero (sender : holder ≠ movement.sender) (payer : holder ≠ movement.payer)
    (receiver : movement.receiver ≠ some holder) : movement.change holder = 0 := by
  simp [change, credit, debit, sender, payer, receiver]

variable [Fintype ι]

theorem sum_debit : ∑ holder, movement.debit holder = movement.value + movement.fee := by
  simp [debit, sum_add_distrib]

theorem sum_credit :
    ∑ holder, movement.credit holder = if movement.receiver = none then 0 else movement.value := by
  unfold credit
  cases movement.receiver with
  | none | some receiver => simp

theorem total_replace (before after : ι → Nat) (holder : ι)
    (others : ∀ other, other ≠ holder → after other = before other) :
    ∑ other, after other + before holder = ∑ other, before other + after holder := by
  have rest : ∑ other ∈ univ.erase holder, after other =
      ∑ other ∈ univ.erase holder, before other :=
    sum_congr rfl fun other member => others other (ne_of_mem_erase member)
  have all := add_sum_erase univ after (mem_univ holder)
  have allBefore := add_sum_erase univ before (mem_univ holder)
  omega

/-- Holdings that all change by `change` lose in total what is lost. -/
theorem total_add_lost {before after : ι → Nat}
    (moved : ∀ holder, (after holder : Int) = before holder + movement.change holder) :
    ∑ holder, after holder + movement.lost = ∑ holder, before holder := by
  have balanced : ∑ holder, (after holder + movement.debit holder) =
      ∑ holder, (before holder + movement.credit holder) := by
    apply sum_congr rfl
    intro holder _
    have step := moved holder
    unfold change at step
    omega
  rw [sum_add_distrib, sum_add_distrib, sum_debit, sum_credit] at balanced
  unfold lost
  by_cases burned : movement.receiver = none
  · rw [if_pos burned] at balanced ⊢
    omega
  · rw [if_neg burned] at balanced ⊢
    omega

end Movement
