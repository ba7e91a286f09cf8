import IronDag.Chain.Blockchain
import IronDag.Storage.MigratedReads

namespace IronDag

open List hiding count

theorem Database.nodup_blockEntries (codec : StorageCodec) (database : Database) :
    ((database.blockEntries codec).map Prod.fst).Nodup := by
  unfold blockEntries
  rw [map_filterMap]
  refine (SetIteration.nodup _ _).filterMap ?_
  intro key other found first second
  simp only [Option.mem_def, Option.map_map, Option.map_eq_some_iff] at first second
  obtain ⟨⟨_, -, rfl⟩, _, -, same⟩ := And.intro first second
  exact same.symm

/-- Of items with different keys, those are appended whose keys are new. -/
theorem collectBy_eq_append {α β : Type} [DecidableEq β] {key : α → β} {seen found : List α}
    (distinct : (found.map key).Nodup) :
    collectBy key seen found =
      seen ++ found.filter fun item => decide (key item ∉ seen.map key) := by
  unfold collectBy
  induction found generalizing seen with
  | nil => simp
  | cons item rest ih =>
    rw [map_cons, nodup_cons] at distinct
    rw [foldl_cons, ih distinct.2, filter_cons]
    have known : seen.any (fun known => decide (key known = key item)) = true ↔
        key item ∈ seen.map key := by
      simp
    by_cases member : key item ∈ seen.map key
    · rw [if_pos (known.mpr member), if_neg (by simpa using member)]
    · have others : rest.filter (fun other => decide (key other ∉ (seen ++ [item]).map key)) =
          rest.filter fun other => decide (key other ∉ seen.map key) := by
        refine filter_congr fun other listed => ?_
        have apart : key other ≠ key item := fun same => distinct.1 (same ▸ mem_map_of_mem listed)
        simp [apart]
      rw [if_neg (known.not.mpr member), if_pos (decide_eq_true member), others,
        append_assoc, singleton_append]

namespace BlockStore

open Database

variable (entries : List (Bytes × Block))

/-- Reads from a number on are the blocks of a full read from there on, no hash twice, and the pages
of a full read are its parts. -/
structure RangeReads : Prop where
  filtered : ∀ fromBlock count, getBlocksFromNumber entries fromBlock count =
    ((getAllBlocks entries).filter fun block => fromBlock ≤ block.header.blockNumber).take count
  once : ∀ fromBlock count, ((getBlocksFromNumber entries fromBlock count).map Block.hash).Nodup
  pages : ∀ size count,
    (range count).flatMap (fun page => getAllBlocksPaginated entries (page * size) size) =
    (getAllBlocks entries).take (count * size)

/-- The key begins with one of the two prefixes of blocks. -/
def Prefixed (key : Bytes) : Prop :=
  [storageVersion, KeyPrefix.block] <+: key ∨ [LegacyPrefix.block] <+: key

instance : DecidablePred Prefixed := fun _ => inferInstanceAs (Decidable (_ ∨ _))

/-- The entries that one of the scans finds, each once. -/
def scanned : List (Bytes × Block) :=
  prefixedEntries entries ++ (bareEntries entries).filter fun entry => decide (¬Prefixed entry.1)

variable {entries}

theorem mem_prefixedEntries : entry ∈ prefixedEntries entries ↔ entry ∈ entries ∧
    Prefixed entry.1 := by
  simp [prefixedEntries, scanPrefixBytes, Prefixed, and_or_left]

section Distinct

variable (distinct : (entries.map Prod.fst).Nodup)

include distinct

theorem nodup_prefixedEntries : ((prefixedEntries entries).map Prod.fst).Nodup := by
  rw [prefixedEntries, map_append, nodup_append]
  refine ⟨distinct.sublist (filter_sublist.map _), distinct.sublist (filter_sublist.map _), ?_⟩
  intro key versioned other legacy same
  obtain ⟨entry, listed, rfl⟩ := mem_map.mp versioned
  obtain ⟨entry', listed', rfl⟩ := mem_map.mp legacy
  have first := isPrefixOf_iff_prefix.mp (mem_filter.mp listed).2
  have second := isPrefixOf_iff_prefix.mp (mem_filter.mp listed').2
  rw [← same] at second
  obtain ⟨_, shape⟩ := first
  obtain ⟨_, shape'⟩ := second
  exact absurd (head_eq_of_cons_eq (shape.trans shape'.symm)) (by decide)

theorem collectBy_eq_scanned : collectBy Prod.fst (collectBy Prod.fst [] (prefixedEntries entries))
    (bareEntries entries) = scanned entries := by
  have all : collectBy Prod.fst [] (prefixedEntries entries) = prefixedEntries entries := by
    rw [collectBy_eq_append (nodup_prefixedEntries distinct)]
    simp
  have bare : ((bareEntries entries).map Prod.fst).Nodup := distinct.sublist (filter_sublist.map _)
  rw [all, collectBy_eq_append bare, scanned]
  refine congrArg _ (filter_congr fun entry listed => ?_)
  have unique : entry.1 ∈ (prefixedEntries entries).map Prod.fst ↔ Prefixed entry.1 := by
    constructor
    · intro known
      obtain ⟨other, member, same⟩ := mem_map.mp known
      exact same ▸ (mem_prefixedEntries.mp member).2
    · exact fun begins =>
        mem_map_of_mem (mem_prefixedEntries.mpr ⟨mem_of_mem_filter listed, begins⟩)
  rw [decide_eq_decide, unique]

theorem nodup_scanned : (scanned entries).Nodup := by
  rw [← collectBy_eq_scanned distinct]
  exact (nodup_collectBy (nodup_collectBy (by simp))).of_map _

theorem getBlocksFromNumber_eq (fromBlock : U64) (count : ℕ) :
    getBlocksFromNumber entries fromBlock count =
    ((sortByNumber ((scanned entries).map Prod.snd)).filter fun block =>
      fromBlock ≤ block.header.blockNumber).take count := by
  unfold getBlocksFromNumber
  simp only [collectBy_eq_scanned distinct, sortByNumber, SetIteration.filter_insertionSort]

end Distinct

theorem getAllBlocks_of_nodup (once : ((scanned entries).map fun entry => entry.2.hash).Nodup) :
    getAllBlocks entries = sortByNumber
      (if prefixedEntries entries = [] then (scanned entries).map Prod.snd
        else (prefixedEntries entries).map Prod.snd) := by
  have plain : ∀ found : List (Bytes × Block), (found.map fun entry => entry.2.hash).Nodup →
      collectBy Block.hash [] (found.map Prod.snd) = found.map Prod.snd := by
    intro found nodup
    rw [collectBy_eq_append (by rwa [map_map])]
    simp
  have front : (prefixedEntries entries).Sublist (scanned entries) := sublist_append_left _ _
  simp only [getAllBlocks, plain _ (once.sublist (front.map _))]
  by_cases none : prefixedEntries entries = []
  · have bare : bareEntries entries = scanned entries := by
      rw [scanned, none, nil_append, filter_eq_self.mpr]
      intro entry listed
      refine decide_eq_true fun begins => ?_
      exact not_mem_nil (none ▸ mem_prefixedEntries.mpr ⟨mem_of_mem_filter listed, begins⟩)
    rw [if_pos (map_eq_nil_iff.mpr none), if_pos none, bare, plain _ once]
  · rw [if_neg (mt map_eq_nil_iff.mp none), if_neg none]

theorem pages_getAllBlocks (size count : ℕ) :
    (range count).flatMap (fun page => getAllBlocksPaginated entries (page * size) size) =
      (getAllBlocks entries).take (count * size) := by
  induction count with
  | zero => simp
  | succ count ih =>
    rw [range_succ, flatMap_append, flatMap_singleton, ih, Nat.succ_mul, take_add]
    rfl

/-- All reads agree exactly if no hash is stored under two of the scanned keys, and no scanned key
without a prefix stands beside one with a prefix. -/
theorem rangeReads_iff (codec : StorageCodec) (database : Database) :
    RangeReads (database.blockEntries codec) ↔
      (∀ one ∈ scanned (database.blockEntries codec),
        ∀ other ∈ scanned (database.blockEntries codec), one.2.hash = other.2.hash → one = other) ∧
      ((∀ entry ∈ database.blockEntries codec, ¬Prefixed entry.1) ∨
        ∀ entry ∈ database.blockEntries codec, entry.1.length = 32 → Prefixed entry.1) := by
  have distinct := database.nodup_blockEntries codec
  generalize database.blockEntries codec = entries at distinct ⊢
  have perm : ∀ blocks, (sortByNumber blocks).Perm blocks :=
    fun blocks => perm_insertionSort _ blocks
  have noneBegins : prefixedEntries entries = [] ↔ ∀ entry ∈ entries, ¬Prefixed entry.1 := by
    simp [eq_nil_iff_forall_not_mem, mem_prefixedEntries]
  have noneStrays : scanned entries = prefixedEntries entries ↔
      ∀ entry ∈ entries, entry.1.length = 32 → Prefixed entry.1 := by
    simp [scanned, bareEntries, filter_eq_nil_iff, not_imp_not]
  rw [← nodup_map_iff_inj_on (nodup_scanned distinct), ← noneBegins, ← noneStrays]
  constructor
  · rintro ⟨filtered, once, -⟩
    have all : getBlocksFromNumber entries 0 (scanned entries).length =
        sortByNumber ((scanned entries).map Prod.snd) := by
      rw [getBlocksFromNumber_eq distinct, filter_eq_self.mpr (by simp [BitVec.le_def])]
      exact take_of_length_le (by rw [(perm _).length_eq, length_map])
    have nodup := once 0 (scanned entries).length
    rw [all, ((perm _).map Block.hash).nodup_iff, map_map] at nodup
    refine ⟨nodup, or_iff_not_imp_left.mpr fun some => ?_⟩
    have shorter : (scanned entries).length ≤ (prefixedEntries entries).length := by
      have read := congrArg length (filtered 0 (scanned entries).length)
      rw [all, getAllBlocks_of_nodup nodup, if_neg some, (perm _).length_eq, length_map] at read
      rw [read]
      refine (length_take_le' _ _).trans ((length_filter_le _ _).trans ?_)
      rw [(perm _).length_eq, length_map]
    exact ((sublist_append_left _ _).eq_of_length_le shorter).symm
  · rintro ⟨nodup, alone⟩
    have all : getAllBlocks entries = sortByNumber ((scanned entries).map Prod.snd) := by
      rw [getAllBlocks_of_nodup nodup]
      split
      · rfl
      · next some => rw [alone.resolve_left some]
    refine ⟨fun fromBlock count => ?_, fun fromBlock count => ?_, pages_getAllBlocks⟩
    · rw [all, getBlocksFromNumber_eq distinct]
    · rw [getBlocksFromNumber_eq distinct, ← all]
      exact (nodup_hash_getAllBlocks entries).sublist
        (((take_sublist _ _).trans filter_sublist).map _)

/-- A database in which two versions have stored the genesis block. -/
def storedTwice : Database :=
  ((∅ : Database).insert (blockKey Blockchain.genesisBlock.hash) [1]).insert
    (Bytes.be Blockchain.genesisBlock.hash) [1]

/-- The block is read twice from its number on, and once with all blocks. -/
theorem storedTwice_unlike : ¬RangeReads (storedTwice.blockEntries { StorageMigrator.plainCodec with
    deserializeBlock := fun value =>
      if value = [1] then .ok Blockchain.genesisBlock else .error "unsupported" }) := by
  intro reads
  exact absurd (reads.filtered 0 2) (by decide +kernel)

end BlockStore

end IronDag
