import IronDag.Lib.Collections
import IronDag.Storage.Database

namespace IronDag

open List hiding count

/-- The entries whose values are blocks, in the order of their keys. -/
def Database.blockEntries (codec : StorageCodec) (database : Database) : List (Bytes × Block) :=
  let keys := SetIteration.sortedBy fun left right : Bytes => left ≤ right
  (keys.toList database.keys).filterMap fun key =>
    ((database.lookup key).bind fun value => (codec.deserializeBlock value).toOption).map
      fun block => (key, block)

/-- Appends what has a key that has not been seen. -/
def collectBy {α β : Type} [DecidableEq β] (key : α → β) (seen found : List α) : List α :=
  found.foldl (fun seen item =>
    if seen.any (fun known => decide (key known = key item)) then seen else seen ++ [item]) seen

theorem nodup_collectBy {α β : Type} [DecidableEq β] {key : α → β} {seen found : List α}
    (distinct : (seen.map key).Nodup) : ((collectBy key seen found).map key).Nodup := by
  unfold collectBy
  induction found generalizing seen with
  | nil => exact distinct
  | cons item rest ih =>
    rw [foldl_cons]
    apply ih
    split
    · exact distinct
    · next fresh =>
      rw [map_append, map_singleton, nodup_append_comm, singleton_append, nodup_cons]
      refine ⟨fun known => fresh ?_, distinct⟩
      obtain ⟨other, member, same⟩ := mem_map.mp known
      exact any_eq_true.mpr ⟨other, member, decide_eq_true same⟩

namespace BlockStore

open Database

def sortByNumber (blocks : List Block) : List Block :=
  blocks.insertionSort (SetIteration.KeyLE fun block : Block => block.header.blockNumber.toNat)

variable (entries : List (Bytes × Block))

def scanPrefixBytes (start : Bytes) : List (Bytes × Block) :=
  entries.filter fun entry => start.isPrefixOf entry.1

/-- The entries under the two prefixes. -/
def prefixedEntries : List (Bytes × Block) :=
  scanPrefixBytes entries [storageVersion, KeyPrefix.block] ++
    scanPrefixBytes entries [LegacyPrefix.block]

/-- The entries under keys as long as a hash, whatever they begin with. -/
def bareEntries : List (Bytes × Block) :=
  entries.filter fun entry => decide (entry.1.length = 32)

/-- Every stored block by block number. Keys without a prefix are looked at only if nothing else was
found. -/
def getAllBlocks : List Block :=
  let prefixed := collectBy Block.hash [] ((prefixedEntries entries).map Prod.snd)
  sortByNumber
    (if prefixed = [] then collectBy Block.hash [] ((bareEntries entries).map Prod.snd)
      else prefixed)

/-- `get_all_blocks` asks for all of them. -/
def getAllBlocksPaginated (offset limit : ℕ) : List Block :=
  ((getAllBlocks entries).drop offset).take limit

/-- What is remembered as seen are the keys, not the hashes of the blocks. -/
def getBlocksFromNumber (fromBlock : U64) (count : ℕ) : List Block :=
  let found :=
    collectBy Prod.fst (collectBy Prod.fst [] (prefixedEntries entries)) (bareEntries entries)
  (sortByNumber
    ((found.map Prod.snd).filter fun block => fromBlock ≤ block.header.blockNumber)).take count

theorem nodup_hash_getAllBlocks : ((getAllBlocks entries).map Block.hash).Nodup := by
  unfold getAllBlocks sortByNumber
  rw [((perm_insertionSort _ _).map Block.hash).nodup_iff]
  split <;> exact nodup_collectBy nodup_nil

end BlockStore

end IronDag
