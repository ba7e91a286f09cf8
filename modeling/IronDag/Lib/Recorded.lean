import Mathlib.Data.Finset.Erase
import Mathlib.Data.Finset.SDiff

universe u

variable {α : Type u}

/-- The set has exactly the items, and each item is held once. -/
def Recorded (record : Finset α) (items : Multiset α) : Prop :=
  items = record.val

namespace Recorded

variable {record : Finset α} {items : Multiset α} {item : α}

theorem nodup (recorded : Recorded record items) : items.Nodup := by
  rw [show items = record.val from recorded]
  exact record.nodup

theorem mem_iff (recorded : Recorded record items) : item ∈ record ↔ item ∈ items := by
  rw [show items = record.val from recorded, Finset.mem_val]

theorem empty : Recorded (∅ : Finset α) 0 := rfl

variable [DecidableEq α]

theorem cons (recorded : Recorded record items) (fresh : item ∉ record) :
    Recorded (insert item record) (item ::ₘ items) := by
  rw [Recorded, Finset.insert_val_of_notMem fresh, show items = record.val from recorded]

theorem erase (recorded : Recorded record (item ::ₘ items)) :
    Recorded (record.erase item) items := by
  rw [Recorded, Finset.erase_val, ← show item ::ₘ items =
    record.val from recorded, Multiset.erase_cons_head]

theorem sdiff (recorded : Recorded record (gone + kept)) :
    Recorded (record \ gone.toFinset) kept := by
  have distinct := recorded.nodup
  refine Multiset.Nodup.ext (Multiset.nodup_add.mp distinct).2.1 (Finset.nodup _)
    |>.mpr fun item => ?_
  rw [Finset.mem_val, Finset.mem_sdiff, recorded.mem_iff, Multiset.mem_add, Multiset.mem_toFinset]
  constructor
  · intro held
    refine ⟨.inr held, fun left => ?_⟩
    exact Multiset.disjoint_left.mp (Multiset.nodup_add.mp distinct).2.2 left held
  · rintro ⟨held | held, still⟩
    · exact absurd held still
    · exact held

end Recorded
