import IronDag.Storage.Database

namespace IronDag

namespace Database

open Bytes List

/-- The kinds of entries. Blocks under their bare hash were left by the oldest version, the last
four kinds are the checkpoint of the consensus. -/
inductive RecordKind where
  | balance | nonce | contract | storage | children | parents | block | rawBlock
  | blueScore | blueSet | ordering | checkpointMeta
  deriving DecidableEq

namespace RecordKind

/-- The prefixes by which a kind is scanned: the one its keys are written with, and the byte of the
version before. -/
def scans : RecordKind → List Bytes
  | balance => [[storageVersion, KeyPrefix.balance], [LegacyPrefix.balance]]
  | nonce => [[storageVersion, KeyPrefix.nonce], [LegacyPrefix.nonce]]
  | contract => [[storageVersion, KeyPrefix.contract], [LegacyPrefix.contract]]
  | storage => [[storageVersion, KeyPrefix.contractStorage], [LegacyPrefix.storage]]
  | children => [[storageVersion, KeyPrefix.children], [LegacyPrefix.children]]
  | parents => [[storageVersion, KeyPrefix.parents], [LegacyPrefix.parents]]
  | block | rawBlock => [[storageVersion, KeyPrefix.block], [LegacyPrefix.block]]
  | blueScore => [[0x10]]
  | blueSet => [[0x11]]
  | ordering => [[0x12]]
  | checkpointMeta => []

/-- What stands in front of the arguments in a key. -/
def front : RecordKind → Bytes
  | rawBlock => []
  | kind => kind.scans.headD []

/-- Both kinds of keys of blocks are about blocks. -/
def entity : RecordKind → RecordKind
  | rawBlock => block
  | kind => kind

def Arguments : RecordKind → Type
  | balance | nonce | contract => Address
  | storage => Address × Bytes
  | children | parents | block | rawBlock | blueScore | blueSet => Hash
  | ordering => U64
  | checkpointMeta => Unit

def encode : (kind : RecordKind) → kind.Arguments → Bytes
  | balance, address | nonce, address | contract, address => be (show Address from address)
  | storage, (address, slot) => be address ++ slot
  | children, hash | parents, hash | block, hash | rawBlock, hash | blueScore, hash
  | blueSet, hash => be (show Hash from hash)
  | ordering, index => be (show U64 from index)
  | checkpointMeta, _ => ofText "checkpoint_meta"

end RecordKind

structure Record where
  kind : RecordKind
  arguments : kind.Arguments

namespace Record

open RecordKind

def key (record : Record) : Bytes :=
  record.kind.front ++ record.kind.encode record.arguments

/-- Two records have two keys, and no scan for the kind of one finds the other. -/
def Apart (left right : Record) : Prop :=
  (left.key = right.key → left = right) ∧
    ∀ start ∈ left.kind.scans, start <+: right.key → left.kind.entity = right.kind.entity

variable {left right : Record}

end Record

end Database

end IronDag
