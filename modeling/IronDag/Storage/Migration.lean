import IronDag.Lib.Relocation
import IronDag.Storage.Database

namespace IronDag

open Bytes

namespace Database

/-- What an entry of the database is about. -/
inductive Entity where
  | balance (address : Address)
  | nonce (address : Address)
  | contract (address : Address)
  | storage (address : Address) (slot : BitVec 256)
  | children (parentHash : Hash)
  | parents (childHash : Hash)
  | block (blockHash : Hash)
  deriving DecidableEq

def Entity.key : Entity → Bytes
  | balance address => balanceKey address
  | nonce address => nonceKey address
  | contract address => contractKey address
  | storage address slot => storageKey address slot
  | children parentHash => childrenKey parentHash
  | parents childHash => parentsKey childHash
  | block blockHash => blockKey blockHash

/-- The key the readers fall back to. -/
def Entity.legacyKey : Entity → Bytes
  | balance address => textKey "balance:" (be address)
  | nonce address => textKey "nonce:" (be address)
  | contract address => textKey "contract:" (be address)
  | storage address slot => be address ++ be slot
  | children parentHash => textKey "children:" (be parentHash)
  | parents childHash => textKey "parents:" (be childHash)
  | block blockHash => be blockHash

namespace StorageMigrator

/-- The word with these digits, of either case. -/
def decodeDigits (width : ℕ) (digits : Bytes) : Option (BitVec (8 * width)) := do
  let bytes ← Hex.decode digits
  if bytes.length = width then return ofBE (8 * width) bytes else none

/-- The part of `key` behind `word`. -/
def stripPrefix (word : String) (key : Bytes) : Option Bytes :=
  if (ofText word).isPrefixOf key then some (key.drop (ofText word).length) else none

/-- The words of the textual keys, each with what the digits behind it stand for. -/
def textKinds : List (String × (Bytes → Option Entity)) :=
  [("balance:", fun hexAddr => (decodeDigits 20 hexAddr).map .balance),
    ("nonce:", fun hexAddr => (decodeDigits 20 hexAddr).map .nonce),
    ("contract:", fun hexAddr => (decodeDigits 20 hexAddr).map .contract),
    ("children:", fun hexHash => (decodeDigits 32 hexHash).map .children),
    ("parents:", fun hexHash => (decodeDigits 32 hexHash).map .parents)]

/-- What a textual key is about. The first word that fits decides. -/
def textEntity (key : Bytes) : Option Entity :=
  (textKinds.findSome? fun kind => (stripPrefix kind.1 key).map kind.2).join

/-- A bare hash with a block under it. -/
def rawBlockEntity (codec : StorageCodec) (key value : Bytes) : Option Entity :=
  if key.length = 32 ∧ key.head? ≠ some storageVersion ∧ key.head? ≠ some LegacyPrefix.block ∧
      key.head? ≠ some LegacyPrefix.children ∧ key.head? ≠ some LegacyPrefix.parents then
    match codec.deserializeBlock value with
    | .ok _ => some (.block (ofBE 256 key))
    | .error _ => none
  else
    none

/-- An address and a slot without a prefix. -/
def rawStorageEntity (key : Bytes) : Option Entity :=
  if key.length = 52 ∧ key.head? ≠ some LegacyPrefix.storage ∧ key.head? ≠ some storageVersion then
    some (.storage (ofBE 160 (key.take 20)) (ofBE 256 (key.drop 20)))
  else
    none

/-- What a legacy entry is about; an entry that is not one is about nothing. -/
def entities (codec : StorageCodec) (key value : Bytes) : List Entity :=
  (textEntity key).toList ++ (rawBlockEntity codec key value).toList ++
    (rawStorageEntity key).toList

/-- The current keys a legacy entry moves to. -/
def newKeys (codec : StorageCodec) (key value : Bytes) : List Bytes :=
  (entities codec key value).map Entity.key

theorem rank_injective : Function.Injective fun key : Bytes => key.map BitVec.toNat :=
  List.map_injective_iff.mpr fun _ _ => BitVec.eq_of_toNat_eq

def iter (database : Database) : List (Bytes × Bytes) :=
  Relocation.ascending rank_injective database

def keysToDelete (codec : StorageCodec) (database : Database) : List Bytes :=
  (iter database).flatMap fun entry => (newKeys codec entry.1 entry.2).map fun _ => entry.1

/-- The number of entries moved, and the database afterwards. -/
def migrate (codec : StorageCodec) (database : Database) : ℕ × Database :=
  let written := Relocation.writeAll (newKeys codec) database (iter database)
  ((keysToDelete codec database).length, Relocation.eraseAll written (keysToDelete codec database))

end StorageMigrator

end Database

end IronDag
