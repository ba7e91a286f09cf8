import IronDag.Chain.Blockchain

namespace IronDag

def streamAReward : U128 := BitVec.ofNat 128 50000000000000000000

def streamBReward : U128 := BitVec.ofNat 128 25000000000000000000

def halvingInterval : U64 := 12614400

/-- Nothing is left after 64 halvings. -/
def getBlockReward (blockHeight : U64) (stream : StreamType) : U128 :=
  let era := blockHeight / halvingInterval
  match stream with
  | .streamC => 0
  | .streamA => if 64 ≤ era then 0 else streamAReward >>> era.toNat
  | .streamB => if 64 ≤ era then 0 else streamBReward >>> era.toNat

namespace Transaction

variable (tx : Transaction) (baseFee : U128)

/-- The gas price of a transaction without EIP-1559 fields. -/
def legacyGasPrice : U128 :=
  if 0 < tx.gasLimit then tx.gasPrice else 0

def calculateEffectiveTip : U128 :=
  match tx.maxFeePerGas with
  | some maxFee =>
    let maxPriority := tx.maxPriorityFeePerGas.getD 0
    let available := Word.saturatingSub maxFee baseFee
    if maxPriority ≤ available then maxPriority else available
  | none => Word.saturatingSub tx.legacyGasPrice baseFee

def calculateTotalFee : U128 :=
  match tx.maxFeePerGas with
  | some maxFee =>
    let offered := baseFee + tx.maxPriorityFeePerGas.getD 0
    (if maxFee ≤ offered then maxFee else offered) * tx.gasLimit.setWidth 128
  | none => tx.fee

def canAffordBaseFee : Bool :=
  match tx.maxFeePerGas with
  | some maxFee => decide (baseFee ≤ maxFee)
  | none => decide (baseFee ≤ tx.legacyGasPrice)

end Transaction

structure BlockFees where
  totalBaseFee : U128
  totalPriorityFee : U128
  deriving DecidableEq, Repr

namespace BlockFees

/-- One transaction more. The sums wrap around. -/
def add (baseFee : U128) (fees : BlockFees) (tx : Transaction) : BlockFees where
  totalBaseFee := fees.totalBaseFee + baseFee * tx.gasLimit.setWidth 128
  totalPriorityFee :=
    fees.totalPriorityFee + tx.calculateEffectiveTip baseFee * tx.gasLimit.setWidth 128

def ofBlock (block : Block) : BlockFees :=
  block.transactions.foldl (add block.header.baseFeePerGas)
    { totalBaseFee := 0, totalPriorityFee := 0 }

def minerPriorityShare (fees : BlockFees) : U128 :=
  fees.totalPriorityFee / 2

/-- The base fee and the other half of the priority fee. -/
def totalBurned (fees : BlockFees) : U128 :=
  fees.totalBaseFee + (fees.totalPriorityFee - fees.minerPriorityShare)

end BlockFees

def maxBlockNumberGap : U64 := 50

/-- A mined block with the number that was reserved for it. -/
structure BlockSubmission where
  block : Block
  streamType : StreamType
  blockNumber : U64

namespace BlockSubmission

variable (submission : BlockSubmission)

def totalMinerReward : U128 :=
  Word.saturatingAdd (getBlockReward submission.blockNumber submission.streamType)
    (BlockFees.ofBlock submission.block).minerPriorityShare

/-- The hash check ahead of the chain. A genesis block passes. -/
def powHashValid (crypto : Crypto) : Bool :=
  decide (submission.block.header.blockNumber = 0) ||
    decide (submission.block.hash = submission.block.calculateHash crypto)

end BlockSubmission

inductive SubmissionOutcome where
  | numberMismatch
  | tooFarAhead
  | invalidHash
  | rejected (fault : ChainFault)
  | committed
  deriving DecidableEq, Repr

namespace Blockchain

def addBurnedFees (chain : Blockchain) (amount : U128) : Blockchain :=
  { chain with totalFeesBurned := Word.saturatingAdd chain.totalFeesBurned amount }

def setBalance (chain : Blockchain) (address : Address) (balance : U128) : Blockchain :=
  { chain with toLedger := chain.toLedger.setBalance address balance }

/-- The fee split and the reward of a committed block. -/
def creditMiner (chain : Blockchain) (miner : Address) (submission : BlockSubmission) :
    Blockchain :=
  let burned := chain.addBurnedFees (BlockFees.ofBlock submission.block).totalBurned
  burned.setBalance miner (Word.saturatingAdd (burned.getBalance miner) submission.totalMinerReward)

/-- One round of `process_blocks`. What a rejected block left behind stays. -/
def processSubmission (host : Host) (conditions : Conditions) (miner : Address)
    (submission : BlockSubmission) (chain : Blockchain) : SubmissionOutcome × Blockchain :=
  if submission.block.header.blockNumber ≠ submission.blockNumber then
    (.numberMismatch, chain)
  else if chain.latestBlockNumber + maxBlockNumberGap < submission.blockNumber then
    (.tooFarAhead, chain)
  else if !submission.powHashValid host.crypto then
    (.invalidHash, chain)
  else
    match addBlockPreVerified host conditions submission.block chain with
    | .ok _ added => (.committed, added.creditMiner miner submission)
    | .error fault left => (.rejected fault, left)

end Blockchain

end IronDag
