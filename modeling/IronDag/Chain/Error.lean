import IronDag.Types

namespace IronDag

/-- The lowercase hexadecimal text of a byte string, two digits a byte. -/
def hexEncode (bytes : Bytes) : String :=
  String.ofList
    (bytes.flatMap fun byte => [Nat.digitChar (byte.toNat / 16), Nat.digitChar (byte.toNat % 16)])

inductive BlockchainError where
  | invalidBlock (reason : String)
  | invalidTransaction (reason : String)
  | storage (reason : String)
  | evm (reason : String)
  | validation (reason : String)
  | serialization (reason : String)
  | unknown (reason : String)
  deriving DecidableEq, Repr

def BlockchainError.text : BlockchainError → String
  | invalidBlock reason => s!"Invalid block: {reason}"
  | invalidTransaction reason => s!"Invalid transaction: {reason}"
  | storage reason => s!"Storage error: {reason}"
  | evm reason => s!"EVM error: {reason}"
  | validation reason => s!"Validation error: {reason}"
  | serialization reason => s!"Serialization error: {reason}"
  | unknown reason => s!"Unknown error: {reason}"

inductive BlockValidationError where
  | unknownParent (reason : String)
  | noParents
  | duplicateTransaction (hash : Hash)
  | timestampTooFarInFuture (timestamp current maxFuture : U64)
  | timestampTooOld (timestamp minimum : U64)
  | maxTransactionsExceeded (count max : Nat)
  | blockSizeExceeded (size max : Nat)
  | tooManyParentHashes (count max : Nat)
  | invalidBlockHash (expected computed : Hash)
  deriving DecidableEq, Repr

def BlockValidationError.text : BlockValidationError → String
  | unknownParent reason => s!"Unknown parent hash: {reason}"
  | noParents => "No parents specified for non-genesis block"
  | duplicateTransaction hash => s!"Duplicate transaction: {hexEncode (Bytes.be hash)}"
  | timestampTooFarInFuture timestamp current maxFuture =>
    s!"Block timestamp too far in future: {timestamp.toNat} (current: {current.toNat}, " ++
      s!"max_future: {maxFuture.toNat})"
  | timestampTooOld timestamp minimum =>
    s!"Block timestamp too old: {timestamp.toNat} (minimum: {minimum.toNat})"
  | maxTransactionsExceeded count max =>
    s!"Block exceeds maximum transaction count: {count} (max: {max})"
  | blockSizeExceeded size max =>
    s!"Block size exceeds maximum: {size} bytes (max: {max} bytes)"
  | tooManyParentHashes count max =>
    s!"Parent hash count exceeds maximum: {count} (max: {max})"
  | invalidBlockHash expected computed =>
    s!"Block hash mismatch: expected {hexEncode (Bytes.be expected)}, " ++
      s!"computed {hexEncode (Bytes.be computed)}"

end IronDag
