import IronDag.Lib.Table

universe u v w

namespace Positions

variable {P : Type u} {α : Type v} {K : Type w} [DecidableEq K]

/-- Every entry is the position of an item with that key. -/
def Points (read : P → Option α) (key : α → K) (table : Table K P) : Prop :=
  ∀ found position, table.lookup found = some position → ∃ item, read position = some item ∧
    key item = found

/-- The key of every item has an entry. -/
def Covers (read : P → Option α) (key : α → K) (table : Table K P) : Prop :=
  ∀ position item, read position = some item → key item ∈ table

/-- The table with the new items, each at its position. A later entry replaces an earlier one. -/
def enter (key : α → K) (table : Table K P) (entries : List (α × P)) : Table K P :=
  entries.foldl (fun table entry => table.insert (key entry.1) entry.2) table

variable {read : P → Option α} {key : α → K} {table : Table K P}

theorem Points.empty : Points read key ∅ := by
  intro found position entry
  cases entry

theorem Points.mono (points : Points read key table)
    (kept : ∀ position item, read position = some item → grown position = some item) :
    Points grown key table := by
  intro found position entry
  obtain ⟨item, placed, same⟩ := points found position entry
  exact ⟨item, kept position item placed, same⟩

theorem Points.enter (points : Points read key table)
    (placed : ∀ entry ∈ entries, read entry.2 = some entry.1) :
    Points read key (enter key table entries) := by
  induction entries generalizing table with
  | nil => exact points
  | cons entry rest ih =>
    refine ih ?_ fun later member => placed later (List.mem_cons_of_mem entry member)
    intro found position looked
    rw [Table.lookup_write] at looked
    split at looked
    · next same =>
      cases looked
      exact ⟨entry.1, placed entry List.mem_cons_self, same.symm⟩
    · exact points found position looked

theorem mem_enter : found ∈ enter key table entries ↔
    found ∈ table ∨ ∃ entry ∈ entries, key entry.1 = found := by
  induction entries generalizing table with
  | nil => simp [enter]
  | cons entry rest ih =>
    have step : enter key table (entry :: rest) =
        enter key (table.insert (key entry.1) entry.2) rest := rfl
    rw [step, ih, Finmap.mem_insert, List.exists_mem_cons_iff,
      @or_comm (found = key entry.1), or_assoc, @eq_comm _ found]

theorem lookup_enter (distinct : (entries.map fun entry => key entry.1).Nodup)
    (member : entry ∈ entries) : (enter key table entries).lookup (key entry.1) = some entry.2 := by
  have untouched : ∀ (rest : List (α × P)) (start : Table K P) (found : K),
      found ∉ rest.map (fun entry => key entry.1) →
        (enter key start rest).lookup found = start.lookup found := by
    intro rest
    induction rest with
    | nil => intro start found _; rfl
    | cons first others ih =>
      intro start found absent
      rw [List.map_cons, List.mem_cons, not_or] at absent
      have kept := ih (start.insert (key first.1) first.2) found absent.2
      rwa [Table.lookup_write, if_neg absent.1] at kept
  induction entries generalizing table with
  | nil => cases member
  | cons first rest ih =>
    rw [List.map_cons, List.nodup_cons] at distinct
    rcases List.mem_cons.mp member with rfl | later
    · have kept := untouched rest (table.insert (key entry.1) entry.2) (key entry.1) distinct.1
      rwa [Table.lookup_write, if_pos rfl] at kept
    · exact ih distinct.2 later

/-- Items that are new have a key in the table already, or are entered. -/
theorem Covers.enter
    (known : ∀ position item, grown position = some item → key item ∈ table ∨
      (item, position) ∈ entries) :
    Covers grown key (enter key table entries) := by
  intro position item placed
  rw [mem_enter]
  exact (known position item placed).imp id fun member => ⟨(item, position), member, rfl⟩

/-- Where no two items share a key, the entries are exactly the positions of the items. -/
theorem lookup_eq_some_iff (points : Points read key table) (covers : Covers read key table)
    (apart : ∀ left right item other, read left = some item → read right = some other →
      key item = key other →
      left = right) (found : K) (position : P) :
    table.lookup found = some position ↔ ∃ item, read position = some item ∧ key item = found := by
  constructor
  · exact points found position
  · rintro ⟨item, placed, rfl⟩
    obtain ⟨other, looked⟩ := Finmap.mem_iff.mp (covers position item placed)
    obtain ⟨twin, twinPlaced, same⟩ := points _ other looked
    rw [looked, apart other position twin item twinPlaced placed same]

end Positions
