import IronDag.Chain.Transaction

namespace IronDag

open Bytes

structure BlockHeader where
  parentHashes : List Hash
  blockNumber : U64
  streamType : StreamType
  difficulty : U64
  timestamp : U64
  nonce : U64
  baseFeePerGas : U128
  hashVersion : Byte
  deriving DecidableEq, Repr

structure Block where
  header : BlockHeader
  transactions : List Transaction
  hash : Hash
  zkProof : Option Bytes
  deriving DecidableEq, Repr

def Block.transactionHashes (block : Block) : List Hash :=
  block.transactions.map Transaction.hash

/-- `hash` starts with `difficulty` zero bits; from 256 on, all of it has to be zero. -/
def meetsDifficulty (hash : Hash) (difficulty : U64) : Bool :=
  let bytes := be hash
  let zeroBytes := (difficulty / 8).toNat
  let zeroBits := (difficulty % 8).toNat
  (bytes.take (min zeroBytes 32)).all (fun byte => decide (byte = 0)) &&
    (decide (32 ≤ zeroBytes) || decide (zeroBits = 0) ||
      decide ((bytes.getD zeroBytes 0).toNat ≤ 0xFF >>> zeroBits))

namespace BlockHeader

variable (crypto : Crypto)

/-- The bytes that the streams A and B hash. The base fee is not among them. -/
def powInput (header : BlockHeader) (transactionsRoot : Hash) : Bytes :=
  header.parentHashes.flatMap be ++
    (le header.blockNumber ++ le header.difficulty ++ le header.timestamp ++
      le header.nonce ++ [header.streamType.toByte] ++ be transactionsRoot ++
      [header.hashVersion])

/-- The bytes that `calculate_header_hash` hashes. -/
def headerInput (header : BlockHeader) : Bytes :=
  header.parentHashes.flatMap be ++
    (le header.blockNumber ++ [header.streamType.toByte] ++ le header.difficulty ++
      le header.timestamp ++ le header.nonce ++ le header.baseFeePerGas ++
      [header.hashVersion])

def calculateHeaderHash (header : BlockHeader) : Hash :=
  crypto.keccak256 header.headerInput

def hashBlake3 (header : BlockHeader) (transactionsRoot : Hash) : Hash :=
  crypto.blake3 (header.powInput transactionsRoot)

end BlockHeader

namespace B3MemHash

variable (crypto : Crypto) (input : Bytes)

/-- The 256 KiB buffer in chunks of 32 bytes. -/
def chunks : Nat := 256 * 1024 / 32

def passes : Nat := 2

/-- Each chunk is the hash of the one before it and of the input. -/
def fill : Nat → Hash → List Hash
  | 0, _ => []
  | count + 1, seed =>
    let chunk := crypto.blake3 (be seed ++ input)
    chunk :: fill count chunk

/-- One mixing pass over the buffer. -/
def mix : Hash → List Hash → List Hash
  | _, [] => []
  | seed, chunk :: rest =>
    let mixed := crypto.blake3 (be seed ++ be chunk ++ input)
    (chunk ^^^ mixed) :: mix mixed rest

def mixPass (memory : List Hash) (pass : Nat) : List Hash :=
  mix crypto input (crypto.blake3 (input ++ le (BitVec.ofNat 64 pass))) memory

/-- The buffer after the filling and the mixing passes. -/
def memory : List Hash :=
  (List.range passes).foldl (mixPass crypto input) (fill crypto input chunks (crypto.blake3 input))

def finalInput : Bytes :=
  input ++ (memory crypto input).flatMap be

theorem length_fill {count : Nat} : (fill crypto input count seed).length = count := by
  induction count generalizing seed with
  | zero => rfl
  | succ count ih => simp [fill, ih]

theorem length_mix {buffer : List Hash} :
    (mix crypto input seed buffer).length = buffer.length := by
  induction buffer generalizing seed with
  | nil => rfl
  | cons chunk rest ih => simp [mix, ih]

theorem length_memory : (memory crypto input).length = chunks := by
  have passLength : ∀ (order : List Nat) (buffer : List Hash),
      (order.foldl (mixPass crypto input) buffer).length = buffer.length := by
    intro order
    induction order with
    | nil => intro buffer; rfl
    | cons pass rest ih =>
      intro buffer
      rw [List.foldl_cons, ih]
      exact length_mix crypto input
  rw [memory, passLength, length_fill]

end B3MemHash

def BlockHeader.hashB3memhash (crypto : Crypto) (header : BlockHeader) (transactionsRoot : Hash) :
    Hash :=
  crypto.blake3 (B3MemHash.finalInput crypto (header.powInput transactionsRoot))

section TransactionsRoot

variable (crypto : Crypto)

/-- One level of the tree: adjacent pairs, an odd last element paired with itself. -/
def merkleLevel : List Hash → List Hash
  | [] => []
  | [last] => [crypto.keccak256 (be last ++ be last)]
  | left :: right :: rest =>
    crypto.keccak256 (be left ++ be right) :: merkleLevel rest

/-- Levels are taken until one hash is left. -/
def merkleRoot : Nat → List Hash → Hash
  | 0, level => level.headD 0
  | fuel + 1, level =>
    if level.length ≤ 1 then level.headD 0 else merkleRoot fuel (merkleLevel crypto level)

/-- The first level of `count` hashes is shorter than `count`, so `count` levels are enough. -/
def calculateTransactionsRoot : List Hash → Hash
  | [] => crypto.keccak256 (List.replicate 32 0)
  | hashes => merkleRoot crypto hashes.length hashes

theorem length_merkleLevel (level : List Hash) :
    (merkleLevel crypto level).length = (level.length + 1) / 2 := by
  fun_induction merkleLevel crypto level with
  | case1 => rfl
  | case2 => simp
  | case3 left right rest ih =>
    simp only [List.length_cons]
    omega

/-- The fuel never decides the root. -/
theorem merkleRoot_fuel (enough : level.length ≤ fuel + 1) :
    merkleRoot crypto (fuel + 1) level = merkleRoot crypto fuel level := by
  induction fuel generalizing level with
  | zero => simp [merkleRoot, enough]
  | succ fuel ih =>
    by_cases single : level.length ≤ 1
    · simp [merkleRoot, single]
    · have shorter := length_merkleLevel crypto level
      have next : merkleRoot crypto (fuel + 1) (merkleLevel crypto level) =
          merkleRoot crypto fuel (merkleLevel crypto level) := ih (by omega)
      rw [merkleRoot, next, merkleRoot]

end TransactionsRoot

namespace Block

variable (crypto : Crypto)

/-- The bytes hashed for a block of stream C. -/
def keccakInput (block : Block) : Bytes :=
  be (block.header.calculateHeaderHash crypto) ++ block.transactionHashes.flatMap be

def transactionsRoot (block : Block) : Hash :=
  calculateTransactionsRoot crypto block.transactionHashes

def calculateHash (block : Block) : Hash :=
  match block.header.streamType with
  | .streamA => block.header.hashBlake3 crypto (block.transactionsRoot crypto)
  | .streamB => block.header.hashB3memhash crypto (block.transactionsRoot crypto)
  | .streamC => crypto.keccak256 (block.keccakInput crypto)

/-- A block without a proof, carrying its own hash. -/
def new (header : BlockHeader) (transactions : List Transaction) : Block :=
  let block : Block := { header, transactions, hash := 0, zkProof := none }
  { block with hash := block.calculateHash crypto }

end Block

end IronDag
