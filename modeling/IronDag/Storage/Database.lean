import IronDag.Chain.Block
import IronDag.Chain.Error
import IronDag.Lib.Hex
import IronDag.Lib.Table

namespace IronDag

open Bytes

/-- `bincode` on what the stores keep, and `zstd`. -/
structure StorageCodec where
  serializeBlock : Block → Except String Bytes
  deserializeBlock : Bytes → Except String Block
  deserializeHashes : Bytes → Except String (List Hash)
  /-- `encode_all` at the level of the node. -/
  encodeAll : Bytes → Except String Bytes
  /-- Why no decoder can be opened on the bytes. -/
  decoderError : Bytes → Option String
  /-- At most the given number of bytes from the front of what the bytes decode to. -/
  readToEnd : ℕ → Bytes → Except String Bytes

abbrev Database := Table Bytes Bytes

namespace Database

def storageVersion : Byte := 1

namespace KeyPrefix

def balance : Byte := 0x01

def nonce : Byte := 0x02

def contract : Byte := 0x03

def contractStorage : Byte := 0x04

def children : Byte := 0x05

def parents : Byte := 0x06

def block : Byte := 0x07

end KeyPrefix

namespace LegacyPrefix

/-- The one-byte prefixes of the version before. -/
def balance : Byte := 0x00

def nonce : Byte := 0x01

def contract : Byte := 0x02

def storage : Byte := 0x03

def children : Byte := 0x04

def parents : Byte := 0x05

def block : Byte := 0x06

end LegacyPrefix

def makeKey (typeTag : Byte) (entityKey : Bytes) : Bytes :=
  storageVersion :: typeTag :: entityKey

def balanceKey (address : Address) : Bytes :=
  makeKey KeyPrefix.balance (be address)

def nonceKey (address : Address) : Bytes :=
  makeKey KeyPrefix.nonce (be address)

def contractKey (address : Address) : Bytes :=
  makeKey KeyPrefix.contract (be address)

def storageKey (address : Address) (slot : BitVec 256) : Bytes :=
  makeKey KeyPrefix.contractStorage (be address ++ be slot)

def childrenKey (parentHash : Hash) : Bytes :=
  makeKey KeyPrefix.children (be parentHash)

def parentsKey (childHash : Hash) : Bytes :=
  makeKey KeyPrefix.parents (be childHash)

def blockKey (blockHash : Hash) : Bytes :=
  makeKey KeyPrefix.block (be blockHash)

/-- A textual key: a word and the digits of what it is about. -/
def textKey (word : String) (bytes : Bytes) : Bytes :=
  ofText word ++ Hex.encode bytes

def maxDecompressSize : ℕ := 64 * 1024 * 1024

def compressionThreshold : ℕ := 512

def flagCompressed : Byte := 0xFF

def flagUncompressed : Byte := 0x00

def compressIfBeneficial (codec : StorageCodec) (data : Bytes) : Bytes :=
  if data.length < compressionThreshold then
    flagUncompressed :: data
  else
    match codec.encodeAll data with
    | .ok compressed =>
      if compressed.length < data.length then flagCompressed :: compressed else
        flagUncompressed :: data
    | .error _ => flagUncompressed :: data

/-- Data without a flag was written before there was compression. -/
def decompressIfNeeded (codec : StorageCodec) : Bytes → Except String Bytes
  | [] => .ok []
  | flag :: data =>
    if flag = flagCompressed then
      match codec.decoderError data with
      | some reason => .error s!"Decompression init failed: {reason}"
      | none =>
        match codec.readToEnd (maxDecompressSize + 1) data with
        | .error reason => .error s!"Decompression failed: {reason}"
        | .ok decompressed =>
          if maxDecompressSize < decompressed.length then
            .error s!"Decompressed data exceeds {maxDecompressSize} byte limit"
          else
            .ok decompressed
    else if flag = flagUncompressed then .ok data
    else .ok (flag :: data)

/-- A word of the right length, little-endian. -/
def readWord (w : ℕ) (value : Bytes) : Option (BitVec w) :=
  if value.length = w / 8 then some (ofLE w value) else none

/-- The current entry if it is a word of the right length, and otherwise the legacy one. -/
def getWord (w : ℕ) (current legacy : Option Bytes) : Option (BitVec w) :=
  (current.bind (readWord w)).or (legacy.bind (readWord w))

/-- The current entry if there is one, and otherwise the legacy one, decoded. -/
def getDecoded {α : Type} (deserialize : Bytes → Except String α) (current legacy : Option Bytes) :
    Except BlockchainError (Option α) :=
  match current.or legacy with
  | none => .ok none
  | some value =>
    match deserialize value with
    | .ok decoded => .ok (some decoded)
    | .error reason => .error (.serialization reason)

variable (codec : StorageCodec) (database : Database)

def getBalance (address : Address) : Option U128 :=
  getWord 128 (database.lookup (balanceKey address))
    (database.lookup (textKey "balance:" (be address)))

def getNonce (address : Address) : Option U64 :=
  getWord 64 (database.lookup (nonceKey address)) (database.lookup (textKey "nonce:" (be address)))

/-- Legacy code is returned as it is. -/
def getContractCode (address : Address) : Except BlockchainError (Option Bytes) :=
  match database.lookup (contractKey address) with
  | some value =>
    match decompressIfNeeded codec value with
    | .ok decompressed => .ok (some decompressed)
    | .error reason => .error (.storage reason)
  | none => .ok (database.lookup (textKey "contract:" (be address)))

def getContractStorage (address : Address) (slot : BitVec 256) : Option Bytes :=
  (database.lookup (storageKey address slot)).or (database.lookup (be address ++ be slot))

def getChildren (parentHash : Hash) : Except BlockchainError (Option (List Hash)) :=
  getDecoded codec.deserializeHashes (database.lookup (childrenKey parentHash))
    (database.lookup (textKey "children:" (be parentHash)))

def getParents (childHash : Hash) : Except BlockchainError (Option (List Hash)) :=
  getDecoded codec.deserializeHashes (database.lookup (parentsKey childHash))
    (database.lookup (textKey "parents:" (be childHash)))

/-- `BlockStore::get`. -/
def getBlock (hash : Hash) : Except BlockchainError (Option Block) :=
  getDecoded codec.deserializeBlock (database.lookup (blockKey hash)) (database.lookup (be hash))

end Database

end IronDag
