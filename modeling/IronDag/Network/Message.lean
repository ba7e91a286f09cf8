import IronDag.Mining.Mempool
import IronDag.Network.PeerScore

/-!
The messages of the gossip protocol, and compact blocks, which name transactions by short
identifiers that the receiver looks up in its pools.
-/

namespace IronDag

abbrev ShortId := BitVec 48

structure CompactBlock where
  header : BlockHeader
  shortIds : List ShortId
  /-- The transactions that are not in the pools of the sender. -/
  prefilledTxs : List Transaction
  nonce : U64
  deriving DecidableEq, Repr

inductive NetworkMessage where
  | handshake (listenAddr : String) (capabilities : U32)
  | newBlock (block : Block)
  | newCompactBlock (compactBlock : CompactBlock)
  | newShardBlock (block : Block) (shardId : ℕ)
  | newTransaction (transaction : Transaction)
  | requestBlocks (fromBlock count : U64)
  | requestBlocksByHash (hashes : List Hash)
  | requestMissingParents (hashes : List Hash)
  | requestShardBlocks (shardId : ℕ) (fromBlock count : U64)
  | blocks (blocks : List Block)
  | shardBlocks (shardId : ℕ) (blocks : List Block)
  | ping (nonce : U64)
  | pong (nonce : U64)
  | requestPeers
  | peers (addresses : List String)
  | getMissingTransactions (blockHash : Hash) (shortIds : List ShortId) (nonce : U64)
  | missingTransactions (blockHash : Hash) (transactions : List Transaction)
  | kyberPublicKey (publicKey : Bytes)
  | kyberCiphertext (ciphertext : Bytes)
  | kyberHandshakeAck
  deriving DecidableEq, Repr

namespace MiningManager

variable (manager : MiningManager)

/-- The pools in the order they are read. Future transactions are not among them. -/
def pooledTransactions : List PooledTransaction :=
  manager.txPool.transactions ++ (manager.streamPool .streamA).transactions ++
    (manager.streamPool .streamB).transactions ++ (manager.streamPool .streamC).transactions

def getMempoolSnapshot : Table Hash Transaction :=
  manager.pooledTransactions.foldl (fun mempool pooled => mempool.insert pooled.tx.hash pooled.tx) ∅

def getMempoolHashes : Finset Hash :=
  (manager.pooledTransactions.map PooledTransaction.hash).toFinset

end MiningManager

/-- `SipHash13` under two keys. -/
abbrev SipHasher := U64 → U64 → Bytes → U64

section ShortIds

variable (siphash : SipHasher)

/-- The first six bytes of the hash, with the lowest first. -/
def generateShortId (txHash : Hash) (nonce : U64) : ShortId :=
  (siphash nonce (nonce + 1) (Bytes.be txHash)).setWidth 48

/-- The transactions of the pools by their short identifiers. Of two with the same one, that which
is iterated last counts. -/
def shortIdMap (iteration : SetIteration Hash) (mempool : Table Hash Transaction) (nonce : U64) :
    Table ShortId Transaction :=
  (iteration.toList mempool.keys).foldl
    (fun table hash =>
      match mempool.lookup hash with
      | some tx => table.insert (generateShortId siphash hash nonce) tx
      | none => table) ∅

namespace CompactBlock

def fromBlock (block : Block) (mempoolHashes : Finset Hash) (nonce : U64) : CompactBlock where
  header := block.header
  shortIds := (block.transactions.filter fun tx => tx.hash ∈ mempoolHashes).map fun tx =>
    generateShortId siphash tx.hash nonce
  prefilledTxs := block.transactions.filter fun tx => tx.hash ∉ mempoolHashes
  nonce := nonce

/-- The transactions of the block, with the prefilled ones first, or the short identifiers that are
not in the pools. -/
def toBlock (crypto : Crypto) (iteration : SetIteration Hash) (compactBlock : CompactBlock)
    (mempool : Table Hash Transaction) : Option Block × List ShortId :=
  let table := shortIdMap siphash iteration mempool compactBlock.nonce
  let missing := compactBlock.shortIds.filter fun shortId => (table.lookup shortId).isNone
  if missing = [] then
    (some (Block.new crypto compactBlock.header
      (compactBlock.prefilledTxs ++ compactBlock.shortIds.filterMap table.lookup)), [])
  else (none, missing)

end CompactBlock

def findTransactionsByShortIds (iteration : SetIteration Hash) (mempool : Table Hash Transaction)
    (shortIds : List ShortId) (nonce : U64) : Table ShortId Transaction :=
  (shortIdMap siphash iteration mempool nonce).retain fun shortId _ => shortId ∈ shortIds

end ShortIds

end IronDag
