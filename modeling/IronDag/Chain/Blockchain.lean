import IronDag.Account.Schedules
import IronDag.Chain.BlockChecks
import IronDag.Chain.Process
import IronDag.Consensus.GhostDag

/-!
The chain and the ways a block gets into it: `add_block`, `add_block_pre_verified` for a block mined
here, and `add_block_for_sync` for a block received from a peer.
-/

namespace IronDag

def maxParentHashes : Nat := 10

def maxParentAge : U64 := 100000

/-- Seconds a block may lie ahead of the local clock in `add_block`. -/
def maxClockSkew : U64 := 600

def medianToleranceSecs : U64 := 2

def maxRecentBlocks : Nat := 1000

structure Blockchain extends Ledger where
  ghostdag : Option GhostDag
  cachedTotalTxCount : U64
  recurringManager : Option RecurringTransactionManager
  /-- A field of builds with the `privacy` feature only. -/
  zkVerifyingKey : Option Bytes
  zkEnforce : Bool
  totalFeesBurned : U128
  governanceScheduler : GovernanceScheduler

/-- What one call meets: the clock, the fate of each transaction's locks, the open points of the
collections, and the disk. -/
structure Conditions where
  now : U64
  encounters : Nat → Encounter
  search : BinarySearch
  iteration : SetIteration Hash
  /-- The error that stops the insertion into the DAG, and what the insertion left of the DAG. -/
  dagFailure : Option (BlockchainError × GhostDag)

/-- No lock is contended, sets are iterated by value, searches follow the standard library and the
disk works. -/
def Conditions.uncontended (now : U64) : Conditions where
  now := now
  encounters := fun _ => Encounter.uncontended now
  search := BinarySearch.standard
  iteration := SetIteration.ascendingBy BitVec.toNat fun _ _ => BitVec.eq_of_toNat_eq
  dagFailure := none

/-- A computation on the chain. -/
abbrev ChainM := Fallible ChainFault Blockchain

/-- Runs a computation on the ledger of the chain. -/
def onLedger {α : Type} (action : LedgerM α) : ChainM α := fun chain =>
  match action chain.toLedger with
  | .ok value ledger => .ok value { chain with toLedger := ledger }
  | .error reason ledger => .error reason { chain with toLedger := ledger }

namespace Blockchain

def new : Blockchain where
  toLedger := Ledger.new
  ghostdag := some (GhostDag.new none)
  cachedTotalTxCount := 0
  recurringManager := some ∅
  zkVerifyingKey := none
  zkEnforce := false
  totalFeesBurned := 0
  governanceScheduler := GovernanceScheduler.new

variable (chain : Blockchain)

def invalidBlock {α : Type} (reason : String) : Except ChainFault α :=
  .error (.error (.invalidBlock reason))

def medianTimestamp : Option U64 :=
  let timestamps :=
    ((chain.blocks.blocks.reverse.take 11).map fun block =>
      block.header.timestamp).insertionSort (· ≤ ·)
  timestamps[timestamps.length / 2]?

def checkMedian (block : Block) : Except ChainFault Unit :=
  match chain.medianTimestamp with
  | none => .ok ()
  | some median =>
    if block.header.timestamp + medianToleranceSecs < median then
      .error (.error (.validation
        (s!"Block timestamp {block.header.timestamp.toNat} is before median timestamp " ++
          s!"{median.toNat} of recent blocks")))
    else
      .ok ()

def validateBlockStructure (host : Host) (now : U64) (block : Block) : Except ChainFault Unit :=
  let parents := block.header.parentHashes.length
  match host.serializedSize block with
  | .error reason => .error (.error (.serialization reason))
  | .ok size =>
    if maxBlockSize < size then
      invalidBlock s!"Block size {size} exceeds maximum {maxBlockSize}"
    else if maxParentHashes < parents then
      invalidBlock s!"Too many parent hashes: {parents} (max: {maxParentHashes})"
    else if block.header.blockNumber = 0 then
      if chain.blocks.blocks ≠ [] then invalidBlock "Genesis block must be first" else .ok ()
    else if parents = 0 then
      invalidBlock "Non-genesis block must have at least one parent"
    else if now + maxClockSkew < block.header.timestamp then
      .error (.error (.validation "Block timestamp too far in future"))
    else if block.header.timestamp < minTimestamp then
      .error (.error (.validation "Block timestamp too old"))
    else
      chain.checkMedian block

/-- The genesis block is not hashed again, and neither is a block verified beforehand. -/
def checkBlockHash (crypto : Crypto) (preVerified : Bool) (block : Block) :
    Except ChainFault Unit :=
  if 0 < block.header.blockNumber ∧ preVerified = false ∧
    block.hash ≠ block.calculateHash crypto then
    let expected := hexEncode (Bytes.be (block.calculateHash crypto))
    let received := hexEncode (Bytes.be block.hash)
    invalidBlock s!"Invalid block hash. Expected: {expected}, Got: {received}"
  else
    .ok ()

/-- The public inputs of a state transition proof. The state hashes are placeholders. -/
def zkPublicInputs (crypto : Crypto) (block : Block) : List Hash :=
  [crypto.keccak256 (Bytes.ofText "pre"), crypto.keccak256 (Bytes.ofText "post"),
    block.transactionsRoot crypto]

/-- The proof of a block of stream C. Failures count only where they are enforced. -/
def checkZkProof (host : Host) (block : Block) : Except ChainFault Unit :=
  if host.privacyBuild ∧ block.header.streamType = .streamC then
    match block.zkProof with
    | none => if chain.zkEnforce then invalidBlock "Stream C block missing ZK proof" else .ok ()
    | some proof =>
      match chain.zkVerifyingKey with
      | none => .ok ()
      | some key =>
        match host.verifyStateTransition key proof (zkPublicInputs host.crypto block) with
        | .ok true => .ok ()
        | .ok false =>
          if chain.zkEnforce then invalidBlock "ZK proof verification failed" else .ok ()
        | .error reason =>
          if chain.zkEnforce then invalidBlock s!"ZK verification error: {reason}" else .ok ()
  else
    .ok ()

def checkNewBlock (block : Block) : Except ChainFault Unit :=
  if block.hash ∈ chain.blocks.blockHashes then invalidBlock "Block already exists" else .ok ()

/-- One known parent is enough. -/
def validateParentHashes (block : Block) : Except ChainFault Unit :=
  if block.header.blockNumber = 0 ∨
    block.header.parentHashes.any (· ∈ chain.blocks.blockHashes) then .ok ()
  else
    invalidBlock "No valid parent hash found"

/-- A known parent that is the genesis block, or recent, or known by its hash only. -/
def validParent (block : Block) (parent : Hash) : Bool :=
  decide (parent ∈ chain.blocks.blockHashes) &&
    match chain.blocks.blocks.find? fun known => decide (known.hash = parent) with
    | none => true
    | some known =>
      decide (known.header.blockNumber = 0) ||
        decide (Word.saturatingSub block.header.blockNumber known.header.blockNumber ≤ maxParentAge)

def validateParentHashesEnhanced (block : Block) : Except BlockValidationError Unit :=
  if block.header.blockNumber = 0 then
    .ok ()
  else if block.header.parentHashes = [] then
    .error .noParents
  else if maxParentHashes < block.header.parentHashes.length then
    .error (.tooManyParentHashes block.header.parentHashes.length maxParentHashes)
  else if block.header.parentHashes.any (chain.validParent block) then
    .ok ()
  else
    .error (.unknownParent "no valid parent in local chain")

/-- The checks of a received block. The block number and the post-quantum signature of the header
are looked at as well, but whatever is found there is only logged. -/
def validateBlockEnhanced (host : Host) (now : U64) (block : Block) :
    Except BlockValidationError Unit := do
  block.validateBlockLimits (host.serializedSize block).toOption
  block.validateBlockTimestamp now
  chain.validateParentHashesEnhanced block
  block.checkDuplicateTransactions
  block.verifyTxRoot host.crypto

def pushBlock (data : BlocksData) (block : Block) : BlocksData :=
  let index := data.blocks.length
  { blocks := data.blocks ++ [block]
    blockHashes := insert block.hash data.blockHashes
    blockByHash := data.blockByHash.insert block.hash index
    blockByNumber := data.blockByNumber.insert block.header.blockNumber index
    txByHash := block.transactions.zipIdx.foldl (fun table entry =>
      table.insert entry.1.hash (index, entry.2)) data.txByHash }

/-- The hashes of a block join those of the last 1000 blocks. -/
def rememberHashes (recent : List (List Hash)) (hashes : List Hash) : List (List Hash) :=
  let extended := recent ++ [hashes]
  extended.drop (extended.length - maxRecentBlocks)

/-- The failure of the insertion into the DAG, where there is a DAG. -/
def dagFault (conditions : Conditions) : Option (BlockchainError × GhostDag) :=
  chain.ghostdag.bind fun _ => conditions.dagFailure

/-- Stops the call when the insertion into the DAG fails. -/
def checkDag (conditions : Conditions) : ChainM Unit := do
  let chain ← get
  match chain.dagFault conditions with
  | none => pure ()
  | some (reason, left) =>
    set { chain with ghostdag := some left }
    throw (.error reason)

/-- What both ways of adding a block do once its transactions are processed, with the insertion
into the DAG first. -/
def commitBlock (conditions : Conditions) (block : Block) : Blockchain :=
  { chain with
    ghostdag := chain.ghostdag.map fun dag =>
      dag.addBlock conditions.search conditions.iteration block
    database := chain.database.map fun database => database.putBlock block
    evmExecutor := chain.evmExecutor.map fun executor =>
      executor.updateBlockHash block.header.blockNumber block.hash
    blocks := pushBlock chain.blocks block
    cachedLatestBlockNumber :=
      if chain.cachedLatestBlockNumber < block.header.blockNumber then block.header.blockNumber
      else chain.cachedLatestBlockNumber
    cachedTotalTxCount := chain.cachedTotalTxCount + BitVec.ofNat 64 block.transactions.length
    recentTxHashes := rememberHashes chain.recentTxHashes block.transactionHashes }

/-- Every hundredth block. -/
def prunePeriodically (block : Block) : Blockchain :=
  if block.header.blockNumber % 100 = 0 then
    { chain with
      toLedger := chain.toLedger.pruneSpentOutputs block.header.blockNumber
      ghostdag := chain.ghostdag.map fun dag => dag.pruneOldBlocks block.header.blockNumber }
  else
    chain

/-- The identifier recorded for one execution of a recurring transaction. -/
def executionHash (crypto : Crypto) (recurring : RecurringTransaction) (currentBlock : U64) :
    Hash :=
  crypto.keccak256
    (Bytes.be recurring.recurringTxId ++ Bytes.le recurring.executionCount ++ Bytes.le currentBlock)

/-- Only the cache is written. -/
def cacheAccount (address : Address) (account : AccountState) : Blockchain :=
  { chain with accounts := chain.accounts.insert address account }

def alterRecurring (id : Hash) (change : RecurringTransaction → RecurringTransaction) :
    Blockchain :=
  { chain with recurringManager :=
    chain.recurringManager.map fun manager => manager.alter id change }

/-- One due transaction: a transfer without a fee, or a failure without the balance for it. -/
def executeRecurring (crypto : Crypto) (block : Block) (chain : Blockchain)
    (recurring : RecurringTransaction) : Blockchain :=
  let balance := chain.getBalance recurring.from
  if balance < recurring.value then
    chain.alterRecurring recurring.recurringTxId RecurringTransaction.markFailed
  else
    let receiverBalance := chain.getBalance recurring.to
    let debited := chain.cacheAccount recurring.from
      { balance := balance - recurring.value, nonce := chain.getNonce recurring.from + 1 }
    let credited := debited.cacheAccount recurring.to
      { balance := receiverBalance + recurring.value, nonce := debited.getNonce recurring.to }
    credited.alterRecurring recurring.recurringTxId fun entry =>
      entry.markExecuted (executionHash crypto recurring block.header.blockNumber)
        block.header.timestamp

def processRecurringTransactions (crypto : Crypto) (conditions : Conditions) (block : Block) :
    Blockchain :=
  match chain.recurringManager with
  | none => chain
  | some manager =>
    (manager.getReadyToExecute conditions.iteration block.header.timestamp).foldl
      (executeRecurring crypto block) chain

def applyGovernance (height : U64) : Blockchain :=
  { chain with governanceScheduler := chain.governanceScheduler.applyAtHeight height }

/-- What only `add_block` does after the commit. -/
def finishBlock (crypto : Crypto) (conditions : Conditions) (block : Block) : Blockchain :=
  ((chain.prunePeriodically block).processRecurringTransactions crypto
    conditions block).applyGovernance block.header.blockNumber

/-- The checks of `add_block` ahead of the transactions. -/
def checkBlock (host : Host) (conditions : Conditions) (preVerified : Bool) (block : Block) :
    Except ChainFault Unit := do
  chain.validateBlockStructure host conditions.now block
  checkBlockHash host.crypto preVerified block
  chain.checkZkProof host block
  chain.checkNewBlock block
  chain.validateParentHashes block

def addBlockImpl (host : Host) (conditions : Conditions) (preVerified : Bool) (block : Block) :
    ChainM Unit := do
  Fallible.ofExcept ((← get).checkBlock host conditions preVerified block)
  onLedger (Ledger.validateAndProcessTransactions host conditions.encounters block)
  checkDag conditions
  modify fun chain => (chain.commitBlock conditions block).finishBlock host.crypto conditions block

def addBlock (host : Host) (conditions : Conditions) (block : Block) : ChainM Unit :=
  addBlockImpl host conditions false block

def addBlockPreVerified (host : Host) (conditions : Conditions) (block : Block) : ChainM Unit :=
  addBlockImpl host conditions true block

/-- The enhanced checks, with the error they turn into. -/
def checkReceived (host : Host) (now : U64) (block : Block) : Except ChainFault Unit :=
  match chain.validateBlockEnhanced host now block with
  | .ok _ => .ok ()
  | .error reason => .error (.error (.validation reason.text))

/-- Whether the block was new. -/
def addBlockForSync (host : Host) (conditions : Conditions) (block : Block) : ChainM Bool := do
  let chain ← get
  Fallible.ofExcept (chain.checkReceived host conditions.now block)
  if block.hash ∈ chain.blocks.blockHashes then
    pure false
  else do
    onLedger (Ledger.validateAndProcessTransactions host conditions.encounters block)
    checkDag conditions
    modify fun chain => chain.commitBlock conditions block
    pure true

/-- Moves the denomination of the pool to the recipient, without a transaction. Only the cache is
written, and the nullifier stays spent when the pool's account cannot pay. -/
def poolWithdraw (nullifier : Hash) (recipient : Address) (proof : Option Bytes) : ChainM U128 := do
  let chain ← get
  match chain.privacyPool.withdraw nullifier proof with
  | .error reason =>
    throw (.error (.invalidTransaction s!"Privacy pool withdrawal failed: {reason.text}"))
  | .ok (amount, pool) =>
    let spent := { chain with privacyPool := pool }
    set spent
    let poolBalance := spent.getBalance privacyPoolAddress
    if poolBalance < amount then
      throw (.error
        (.invalidTransaction "Privacy pool account balance inconsistent with pool state"))
    else
      let debited := spent.cacheAccount privacyPoolAddress
        { balance := poolBalance - amount, nonce := spent.getNonce privacyPoolAddress }
      set (debited.cacheAccount recipient
        { balance := debited.getBalance recipient + amount, nonce := debited.getNonce recipient })
      pure amount

def genesisBlock : Block :=
  Block.new Crypto.sample
    { parentHashes := [], blockNumber := 0, streamType := .streamA, difficulty := 1,
      timestamp := 1600000000
      nonce := 0, baseFeePerGas := 1, hashVersion := 1 } []

/-- A child of the genesis block that declares a difficulty. -/
def childBlock (difficulty : U64) (transactions : List Transaction) : Block :=
  Block.new Crypto.sample
    { parentHashes := [genesisBlock.hash], blockNumber := 1, streamType := .streamA, difficulty
      timestamp := 1600000010, nonce := 0, baseFeePerGas := 1, hashVersion := 1 } transactions

end Blockchain

end IronDag
