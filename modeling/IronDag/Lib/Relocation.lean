import IronDag.Lib.Table
import Mathlib.Data.List.Sort
import Mathlib.Order.Basic

/-! Tables iterated in the order of their keys, and passes that move entries to other keys. -/

universe u v w

namespace Relocation

open List hiding keys

variable {K : Type u} {V : Type v} [DecidableEq K]

variable {table : Table K V} {key : K}

section Ascending

variable {β : Type w} [LinearOrder β] {rank : K → β}

/-- The entries of a table in ascending order of its keys. -/
def ascending (injective : Function.Injective rank) (table : Table K V) : List (K × V) :=
  let sorted := Quot.liftOn table.keys.val (insertionSort fun left right => rank left ≤ rank right)
    fun left right same => by
      have antisymm : Std.Antisymm fun left right : K => rank left ≤ rank right :=
        ⟨fun _ _ below above => injective (le_antisymm below above)⟩
      have total : Std.Total fun left right : K => rank left ≤ rank right :=
        ⟨fun _ _ => le_total _ _⟩
      have trans : IsTrans K fun left right : K => rank left ≤ rank right := ⟨fun _ _ _ => le_trans⟩
      exact ((perm_insertionSort _ left).trans
        (same.trans (perm_insertionSort _ right).symm)).eq_of_pairwise'
          (pairwise_insertionSort _ left) (pairwise_insertionSort _ right)
  sorted.filterMap fun key => (table.lookup key).map fun value => (key, value)

theorem exists_sorted (injective : Function.Injective rank) : ∃ keys : List K,
    ascending injective table =
        keys.filterMap (fun key => (table.lookup key).map fun value => (key, value)) ∧
      (∀ key, key ∈ keys ↔ key ∈ table) ∧ keys.Nodup ∧
        keys.Pairwise fun left right => rank left ≤ rank right := by
  have nodup := table.keys.nodup
  have found : ∀ key, key ∈ table.keys.val ↔ key ∈ table := fun key => Finmap.mem_keys
  unfold ascending
  generalize table.keys.val = keys at nodup found
  induction keys using Quot.ind with
  | mk keys =>
    have same := perm_insertionSort (fun left right => rank left ≤ rank right) keys
    exact ⟨_, rfl, fun key => same.mem_iff.trans (found key), same.nodup_iff.mpr nodup,
      pairwise_insertionSort _ keys⟩

theorem mem_ascending {injective : Function.Injective rank} {value : V} :
    (key, value) ∈ ascending injective table ↔ table.lookup key = some value := by
  obtain ⟨keys, same, found, _, _⟩ := exists_sorted injective
  rw [same, mem_filterMap]
  constructor
  · rintro ⟨other, _, read⟩
    obtain ⟨held, looked, pair⟩ := Option.map_eq_some_iff.mp read
    cases pair
    exact looked
  · intro looked
    exact ⟨key, (found key).mpr (Finmap.mem_of_lookup_eq_some looked), by rw [looked]; rfl⟩

theorem pairwise_ascending (injective : Function.Injective rank) :
    (ascending injective table).Pairwise fun left right => rank left.1 < rank right.1 := by
  obtain ⟨keys, same, _, nodup, sorted⟩ := exists_sorted injective
  rw [same, List.pairwise_filterMap]
  refine (sorted.and nodup).imp ?_
  rintro left right ⟨below, distinct⟩ first leftRead second rightRead
  obtain ⟨_, _, rfl⟩ := Option.map_eq_some_iff.mp leftRead
  obtain ⟨_, _, rfl⟩ := Option.map_eq_some_iff.mp rightRead
  exact lt_of_le_of_ne below fun same => distinct (injective same)

end Ascending

variable (place : K → V → List K)

/-- The value of the last entry that is placed at `key`. -/
def lastPlaced (key : K) : List (K × V) → Option V
  | [] => none
  | entry :: rest =>
    (lastPlaced key rest).or (if key ∈ place entry.1 entry.2 then some entry.2 else none)

/-- Writes the value of every entry under the keys it is placed at. -/
def writeAll (table : Table K V) (entries : List (K × V)) : Table K V :=
  entries.foldl (fun table entry =>
    (place entry.1 entry.2).foldl (fun table key => table.insert key entry.2) table) table

def eraseAll (table : Table K V) (keys : List K) : Table K V :=
  keys.foldl (fun table key => table.erase key) table

theorem lookup_foldl_insert {keys : List K} {value : V} :
    (keys.foldl (fun table key => table.insert key value) table).lookup key =
      if key ∈ keys then some value else table.lookup key := by
  induction keys generalizing table with
  | nil => simp
  | cons first rest ih =>
    rw [foldl_cons, ih, Table.lookup_write]
    by_cases later : key ∈ rest <;> by_cases same : key = first <;> simp [later]

theorem lookup_writeAll :
    (writeAll place table entries).lookup key =
      (lastPlaced place key entries).or (table.lookup key) := by
  unfold writeAll
  induction entries generalizing table with
  | nil => rfl
  | cons entry rest ih =>
    rw [foldl_cons, ih, lookup_foldl_insert, lastPlaced, Option.or_assoc]
    split <;> rfl

theorem lookup_eraseAll :
    (eraseAll table keys).lookup key = if key ∈ keys then none else table.lookup key := by
  unfold eraseAll
  induction keys generalizing table with
  | nil => simp
  | cons first rest ih =>
    rw [foldl_cons, ih, Table.lookup_remove]
    by_cases later : key ∈ rest <;> by_cases same : key = first <;> simp [later]

variable {place}

theorem lastPlaced_eq_none_iff :
    lastPlaced place key entries = none ↔ ∀ entry ∈ entries, key ∉ place entry.1 entry.2 := by
  induction entries with
  | nil => simp [lastPlaced]
  | cons entry rest ih =>
    rw [lastPlaced, Option.or_eq_none_iff, ih]
    by_cases placed : key ∈ place entry.1 entry.2 <;> simp [placed]

theorem mem_of_lastPlaced (found : lastPlaced place key entries = some value) :
    ∃ origin, (origin, value) ∈ entries ∧ key ∈ place origin value := by
  induction entries with
  | nil => cases found
  | cons entry rest ih =>
    rw [lastPlaced, Option.or_eq_some_iff] at found
    rcases found with later | ⟨_, now⟩
    · obtain ⟨origin, member, placed⟩ := ih later
      exact ⟨origin, mem_cons_of_mem _ member, placed⟩
    · split at now
      · next placed =>
        cases now
        exact ⟨entry.1, mem_cons_self, placed⟩
      · cases now

/-- Among entries in ascending order the one with the greatest key is the last. -/
theorem lastPlaced_of_greatest {β : Type w} [LinearOrder β] {rank : K → β}
    (sorted : entries.Pairwise fun left right => rank left.1 < rank right.1)
    (member : (origin, value) ∈ entries) (placed : key ∈ place origin value)
    (greatest : ∀ entry ∈ entries, key ∈ place entry.1 entry.2 → rank entry.1 ≤ rank origin) :
    lastPlaced place key entries = some value := by
  induction entries with
  | nil => cases member
  | cons entry rest ih =>
    obtain ⟨first, others⟩ := pairwise_cons.mp sorted
    rw [lastPlaced]
    rcases mem_cons.mp member with rfl | later
    · have none : lastPlaced place key rest = none := by
        refine lastPlaced_eq_none_iff.mpr fun other among elsewhere => ?_
        exact absurd (first other among)
          (not_lt_of_ge (greatest other (mem_cons_of_mem _ among) elsewhere))
      rw [none, if_pos placed]
      rfl
    · rw [ih others later fun other among => greatest other (mem_cons_of_mem _ among)]
      rfl

end Relocation
