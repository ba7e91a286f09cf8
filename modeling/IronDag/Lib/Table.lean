import Mathlib.Data.Finmap

universe u v

/-- A finite table from keys to values. Tables with equal lookups are equal. -/
abbrev Table (K : Type u) (V : Type v) := Finmap (fun _ : K => V)

namespace Table

variable {K : Type u} {V : Type v} [DecidableEq K]

def retain (keep : K → V → Bool) (table : Table K V) : Table K V where
  entries := table.entries.filter fun entry => keep entry.1 entry.2
  nodupKeys := by
    have keysLe := Multiset.map_le_map (f := Sigma.fst)
      (Multiset.filter_le (fun entry : Sigma fun _ : K => V => keep entry.1 entry.2) table.entries)
    exact Multiset.nodup_keys.mp
      (Multiset.nodup_of_le keysLe (Multiset.nodup_keys.mpr table.nodupKeys))

/-- The value of `key` with `absent` standing in for a missing entry. -/
def getD (table : Table K V) (key : K) (absent : V) : V :=
  (table.lookup key).getD absent

variable {table : Table K V} {key : K}

theorem mem_keys_iff : key ∈ table.keys ↔ ∃ value, table.lookup key = some value :=
  Finmap.mem_keys.trans Finmap.mem_iff

theorem lookup_write {written key : K} {value : V} : (table.insert written value).lookup key =
      if key = written then some value else table.lookup key := by
  by_cases same : key = written
  · subst same
    simp
  · simp [same]

theorem lookup_remove {removed key : K} :
    (table.erase removed).lookup key = if key = removed then none else table.lookup key := by
  by_cases same : key = removed
  · subst same
    simp
  · simp [same]

theorem lookup_retain : (retain keep table).lookup key = (table.lookup key).filter (keep key) := by
  ext value
  rw [Finmap.lookup_eq_some_iff, Option.filter_eq_some_iff, Finmap.lookup_eq_some_iff]
  exact Multiset.mem_filter

theorem lookup_retain_key {keep : K → Bool} :
    (retain (fun key _ => keep key) table).lookup key =
      if keep key then table.lookup key else none := by
  rw [lookup_retain]
  cases table.lookup key with
  | none => simp
  | some value => by_cases kept : keep key = true <;> simp [Option.filter]

theorem getD_of_lookup {value absent : V} (found : table.lookup key = some value) :
    getD table key absent = value := by
  rw [getD, found]
  rfl

theorem getD_write {written key : K} {value absent : V} : getD
    (table.insert written value) key absent =
      if key = written then value else getD table key absent := by
  unfold getD
  rw [lookup_write]
  split <;> rfl

/-- Retaining twice with the same test is retaining once. -/
theorem retain_retain {keep : K → V → Bool} :
    retain keep (retain keep table) = retain keep table := by
  apply Finmap.ext_lookup
  intro key
  simp only [lookup_retain]
  cases table.lookup key with
  | none => rfl
  | some value => by_cases kept : keep key value = true <;> simp

/-- The table with the value of one key changed, `absent` standing in for a missing entry. -/
def modifyD (table : Table K V) (key : K) (absent : V) (change : V → V) : Table K V :=
  table.insert key (change (table.getD key absent))

theorem getD_modifyD {absent : V} {change : V → V} :
    (table.modifyD changed absent change).getD key absent =
      if key = changed then change (table.getD key absent) else table.getD key absent := by
  rw [modifyD, getD_write]
  split
  · next same => rw [same]
  · rfl

/-- Changes of different keys commute, and so do changes of one key that commute as functions. -/
theorem modifyD_comm {absent : V} {change other : V → V}
    (commuting : left = right → ∀ value, change (other value) = other (change value)) :
    (table.modifyD left absent change).modifyD right absent other =
      (table.modifyD right absent other).modifyD left absent change := by
  apply Finmap.ext_lookup
  intro key
  by_cases same : left = right
  · subst same
    simp [modifyD, getD_write, commuting rfl]
  · simp only [modifyD, lookup_write, getD_write, if_neg (Ne.symm same)]
    by_cases first : key = left
    · simp [first, same]
    · simp [first]

end Table
