import IronDag.Chain.Block
import IronDag.Chain.Error

namespace IronDag

def maxBlockSize : Nat := 4 * 1024 * 1024

def maxTransactionsPerBlock : Nat := 10000

/-- Seconds a received block may lie ahead of the local clock. -/
def maxTimestampDrift : U64 := 15

/-- The first second of 2020. -/
def minTimestamp : U64 := 1577836800

namespace Block

variable (block : Block)

/-- Recomputes the block hash from header and transactions. -/
def verifyTxRoot (crypto : Crypto) : Except BlockValidationError Unit :=
  if block.hash ≠ block.calculateHash crypto then
    .error (.invalidBlockHash block.hash (block.calculateHash crypto))
  else
    .ok ()

/-- The first hash that occurs a second time. -/
def firstDuplicate (seen : Finset Hash) : List Hash → Option Hash
  | [] => none
  | hash :: rest => if hash ∈ seen then some hash else firstDuplicate (insert hash seen) rest

def checkDuplicateTransactions : Except BlockValidationError Unit :=
  match firstDuplicate ∅ block.transactionHashes with
  | some hash => .error (.duplicateTransaction hash)
  | none => .ok ()

def validateBlockTimestamp (now : U64) : Except BlockValidationError Unit :=
  if now + maxTimestampDrift < block.header.timestamp then
    .error (.timestampTooFarInFuture block.header.timestamp now maxTimestampDrift)
  else if block.header.timestamp < minTimestamp then
    .error (.timestampTooOld block.header.timestamp minTimestamp)
  else
    .ok ()

/-- `size` is the length of the serialized block, if it can be serialized. -/
def validateBlockLimits (size : Option Nat) : Except BlockValidationError Unit :=
  if maxTransactionsPerBlock < block.transactions.length then
    .error (.maxTransactionsExceeded block.transactions.length maxTransactionsPerBlock)
  else
    match size with
    | some size =>
      if maxBlockSize < size then .error (.blockSizeExceeded size maxBlockSize) else .ok ()
    | none => .error (.blockSizeExceeded (2 ^ 64 - 1) maxBlockSize)

theorem verifyTxRoot_eq_ok : block.verifyTxRoot crypto = .ok () ↔
    block.hash = block.calculateHash crypto := by
  unfold verifyTxRoot
  split <;> simp_all

end Block

end IronDag
