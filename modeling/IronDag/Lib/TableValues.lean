import IronDag.Lib.Table

/-! The values of a finite table, as a multiset: what a table holds, whatever its keys. -/

universe u v w

namespace Table

open Multiset

variable {K : Type u} {V : Type v}

def values (table : Table K V) : Multiset V :=
  table.entries.map Sigma.snd

def mapValues {W : Type w} (f : V → W) (table : Table K V) : Table K W where
  entries := table.entries.map fun entry => ⟨entry.1, f entry.2⟩
  nodupKeys := by
    rw [← nodup_keys, keys, map_map]
    exact nodup_keys.mpr table.nodupKeys

@[simp] theorem values_empty : values (∅ : Table K V) = 0 := rfl

theorem values_mapValues {W : Type w} (f : V → W) (table : Table K V) :
    values (mapValues f table) = (values table).map f := by
  simp [values, mapValues]

theorem values_retain : values (retain (fun _ => keep) table) = (values table).filter (keep ·) := by
  rw [values, values, Multiset.filter_map]
  rfl

variable {table : Table K V} {value : V}

/-- Entries that contribute nothing may be dropped. -/
theorem bind_values_retain {W : Type w} {contribution : V → Multiset W}
    (nothing : ∀ value ∈ values table, keep value = false → contribution value = 0) :
    (values (retain (fun _ => keep) table)).bind contribution =
      (values table).bind contribution := by
  rw [values_retain]
  generalize values table = held at nothing
  induction held using Multiset.induction with
  | empty => rfl
  | cons value rest ih =>
    have others := ih fun other member => nothing other (mem_cons_of_mem member)
    cases kept : keep value with
    | true => simp [kept, others]
    | false => simp [kept, others, nothing value (mem_cons_self value rest) kept]

variable [DecidableEq K]

theorem lookup_mapValues {W : Type w} (f : V → W) (table : Table K V) (key : K) :
    (mapValues f table).lookup key = (table.lookup key).map f := by
  ext image
  rw [Finmap.lookup_eq_some_iff, Option.map_eq_some_iff, mapValues, Multiset.mem_map]
  constructor
  · rintro ⟨⟨_, value⟩, entry, same⟩
    cases same
    exact ⟨value, Finmap.lookup_eq_some_iff.mpr entry, rfl⟩
  · rintro ⟨value, read, rfl⟩
    exact ⟨⟨key, value⟩, Finmap.lookup_eq_some_iff.mp read, rfl⟩

theorem values_insert_of_notMem (fresh : key ∉ table) :
    values (table.insert key value) = value ::ₘ values table := by
  rw [values, Finmap.entries_insert_of_notMem fresh, map_cons]
  rfl

theorem countP_values_le {kind : V → Prop} [DecidablePred kind] {keys : Finset K}
    (within : ∀ key value, table.lookup key = some value → kind value → key ∈ keys) :
    (values table).countP kind ≤ keys.card := by
  have distinct : ((table.entries.filter fun entry => kind entry.2).map Sigma.fst).Nodup :=
    nodup_of_le (map_le_map (filter_le _ _)) (nodup_keys.mpr table.nodupKeys)
  have inside : (table.entries.filter fun entry => kind entry.2).map Sigma.fst ⊆ keys.val := by
    intro key member
    obtain ⟨⟨_, value⟩, found, rfl⟩ := mem_map.mp member
    obtain ⟨entry, counted⟩ := mem_filter.mp found
    exact within _ value (Finmap.lookup_eq_some_iff.mpr entry) counted
  calc (values table).countP kind = (table.entries.filter fun entry => kind entry.2).card := by
        rw [values, countP_map]
    _ = ((table.entries.filter fun entry => kind entry.2).map Sigma.fst).card := (card_map _ _).symm
    _ ≤ keys.card := card_le_card ((le_iff_subset distinct).mpr inside)

theorem values_write {key : K} :
    values (table.insert key value) = value ::ₘ values (table.erase key) := by
  have rewritten : table.insert key value = (table.erase key).insert key value := by
    apply Finmap.ext_lookup
    intro other
    rw [lookup_write, lookup_write, lookup_remove]
    split <;> rfl
  rw [rewritten, values_insert_of_notMem Finmap.notMem_erase_self]

theorem values_of_lookup {key : K} (read : table.lookup key = some value) :
    values table = value ::ₘ values (table.erase key) := by
  have unchanged : table.insert key value = table := by
    apply Finmap.ext_lookup
    intro other
    rw [lookup_write]
    split
    · rename_i same
      rw [same, read]
    · rfl
  rw [← values_write, unchanged]

theorem erase_of_lookup (absent : table.lookup key = none) : table.erase key = table := by
  apply Finmap.ext_lookup
  intro other
  rw [lookup_remove]
  split
  · rename_i same
    rw [same, absent]
  · rfl

end Table
