import Mathlib.Data.BitVec

/-!
Machine-word arithmetic beyond the wrapping operations of `BitVec`: the saturating and checked
variants, each with its value as a natural number.
-/

namespace Word

open BitVec

def saturatingAdd (left right : BitVec w) : BitVec w :=
  if left.toNat + right.toNat < 2 ^ w then left + right else allOnes w

def saturatingSub (left right : BitVec w) : BitVec w :=
  if right.toNat ≤ left.toNat then left - right else 0

def checkedAdd (left right : BitVec w) : Option (BitVec w) :=
  if left.toNat + right.toNat < 2 ^ w then some (left + right) else none

/-- Addition in a build that checks for overflow, where it may panic, or wraps. -/
def addIn (overflowChecks : Bool) (left right : BitVec w) : Option (BitVec w) :=
  if overflowChecks ∧ 2 ^ w ≤ left.toNat + right.toNat then none else some (left + right)

/-- Subtraction in a build that checks for overflow, where it may panic, or wraps. -/
def subIn (overflowChecks : Bool) (left right : BitVec w) : Option (BitVec w) :=
  if overflowChecks ∧ left.toNat < right.toNat then none else some (left - right)

@[simp] theorem toNat_saturatingAdd {left right : BitVec w} :
    (saturatingAdd left right).toNat = min (left.toNat + right.toNat) (2 ^ w - 1) := by
  unfold saturatingAdd
  split
  · rename_i fits
    rw [toNat_add_of_lt fits]
    omega
  · rw [toNat_allOnes]
    omega

@[simp] theorem toNat_saturatingSub {left right : BitVec w} :
    (saturatingSub left right).toNat = left.toNat - right.toNat := by
  unfold saturatingSub
  split
  · rename_i ordered
    exact toNat_sub_of_le (le_def.mpr ordered)
  · simp
    omega

theorem addIn_of_lt {left right : BitVec w} (fits : left.toNat + right.toNat < 2 ^ w) :
    addIn overflowChecks left right = some (left + right) :=
  if_neg fun excess => Nat.not_le.mpr fits excess.2

theorem subIn_of_le {left right : BitVec w} (ordered : right ≤ left) :
    subIn overflowChecks left right = some (left - right) :=
  if_neg fun below => Nat.not_lt.mpr (le_def.mp ordered) below.2

theorem toNat_add_one {word : BitVec w} (fits : word.toNat + 1 < 2 ^ w) :
    (word + 1).toNat = word.toNat + 1 := by
  have one : (1 : BitVec w).toNat = 1 := Nat.mod_eq_of_lt ((Nat.le_add_left 1 _).trans_lt fits)
  rw [toNat_add_of_lt (by rwa [one]), one]

theorem saturatingAdd_one_toNat {word : BitVec w} :
    (saturatingAdd word 1).toNat = word.toNat + 1 ↔ word ≠ allOnes w := by
  have one : (1 : BitVec w).toNat = 1 % 2 ^ w := rfl
  rw [toNat_saturatingAdd, one, ne_eq, ← toNat_inj, toNat_allOnes]
  rcases Nat.lt_or_ge 1 (2 ^ w) with wide | narrow
  · rw [Nat.mod_eq_of_lt wide]
    omega
  · omega

end Word
