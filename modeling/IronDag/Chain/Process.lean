import IronDag.Chain.Validate

namespace IronDag

def finalityDepth : U64 := 100

namespace Ledger

variable (ledger : Ledger)

/-- Takes the value from the sender and the fee from the sponsor, or from the sender without one.
All checks come before the first write. With a sponsor, the sender's balance is the one read
before the sponsor was charged. -/
def charge (tx : Transaction) : Except ChainFault Ledger := do
  let newNonce := Word.saturatingAdd (ledger.getNonce tx.from) 1
  let balance := ledger.getBalance tx.from
  require (tx.value ≤ balance) "Insufficient balance for transaction value"
  match tx.sponsor with
  | some sponsor =>
    let sponsorBalance := ledger.getBalance sponsor
    require (tx.fee ≤ sponsorBalance) "Insufficient sponsor balance for transaction fee"
    let charged := ledger.writeBalance sponsor (sponsorBalance - tx.fee) (ledger.getNonce sponsor)
    .ok (charged.writeBalance tx.from (balance - tx.value) newNonce)
  | none =>
    require (tx.fee ≤ balance - tx.value) "Insufficient balance for transaction fee"
    .ok (ledger.writeBalance tx.from (balance - tx.value - tx.fee) newNonce)

/-- The sum wraps around. A transfer to the zero address is credited to nobody. -/
def creditReceiver (tx : Transaction) : Ledger :=
  if tx.to = Address.zero then
    ledger
  else
    ledger.writeBalance tx.to (ledger.getBalance tx.to + tx.value) (ledger.getNonce tx.to)

/-- The 32 bytes of a commitment. -/
def commitmentOf (data : Bytes) : Hash :=
  BitVec.ofNat 256 (data.foldl (fun total byte => total * 256 + byte.toNat) 0)

/-- A transfer to the pool registers its commitment; a rejected one is only logged. -/
def depositCommitment (tx : Transaction) : Ledger :=
  if tx.to = privacyPoolAddress ∧ tx.data.length = 32 then
    { ledger with
      privacyPool :=
        (ledger.privacyPool.deposit (commitmentOf tx.data) ledger.latestBlockNumber).getD
          ledger.privacyPool }
  else
    ledger

/-- The sender is a registered wallet and the registry can be locked for writing. -/
def walletHandled (encounter : Encounter) (tx : Transaction) : Bool :=
  (ledger.registryIf encounter.registryWritable).any fun registry =>
    registry.isContractWallet tx.from

/-- A wallet counts its own nonce, and then the account's is not persisted. -/
def countNonce (encounter : Encounter) (tx : Transaction) (newNonce : U64) : Ledger :=
  if ledger.walletHandled encounter tx then
    { ledger with
      walletRegistry := ledger.walletRegistry.map fun registry =>
        registry.recordTransaction tx.from tx.value }
  else
    ledger.writeNonce tx.from newNonce

/-- The effect of a transfer, once it is charged. -/
def settle (encounter : Encounter) (tx : Transaction) (newNonce : U64) : Ledger :=
  ((ledger.creditReceiver tx).depositCommitment tx).countNonce encounter tx newNonce

/-- What the database says about the accounts of a transaction is what a read of them says. -/
def verifyPostTransactionConsistency (tx : Transaction) : Except ChainFault Unit :=
  match ledger.database with
  | none => .ok ()
  | some database =>
    let sender := hexEncode (Bytes.be tx.from)
    let receiver := hexEncode (Bytes.be tx.to)
    let dbBalanceFrom := (database.getBalance tx.from).getD 0
    let memBalanceFrom := ledger.getBalance tx.from
    let dbNonceFrom := (database.getNonce tx.from).getD 0
    let memNonceFrom := ledger.getNonce tx.from
    let dbBalanceTo := (database.getBalance tx.to).getD 0
    let memBalanceTo := ledger.getBalance tx.to
    if dbBalanceFrom ≠ memBalanceFrom then
      .error (.error (.storage
        (s!"Balance mismatch for sender {sender}: " ++
          s!"DB={dbBalanceFrom.toNat} MEM={memBalanceFrom.toNat}")))
    else if dbNonceFrom ≠ memNonceFrom then
      .error (.error (.storage
        s!"Nonce mismatch for sender {sender}: DB={dbNonceFrom.toNat} MEM={memNonceFrom.toNat}"))
    else if tx.to ≠ Address.zero ∧ dbBalanceTo ≠ memBalanceTo then
      .error (.error (.storage
        (s!"Balance mismatch for receiver {receiver}: " ++
          s!"DB={dbBalanceTo.toNat} MEM={memBalanceTo.toNat}")))
    else
      .ok ()

def storeReceipt (hash : Hash) (receipt : TxReceipt) : Ledger :=
  { ledger with database := ledger.database.map fun database => database.putReceipt hash receipt }

def transferReceipt : TxReceipt where
  success := true
  gasUsed := 21000
  logs := []
  contractAddress := none

def processTransfer (encounter : Encounter) (tx : Transaction) : LedgerM Unit := do
  let ledger ← get
  let charged ← Fallible.ofExcept (ledger.charge tx)
  set (charged.settle encounter tx (Word.saturatingAdd (ledger.getNonce tx.from) 1))
  Fallible.ofExcept ((← get).verifyPostTransactionConsistency tx)
  modify fun ledger => ledger.storeReceipt tx.hash transferReceipt

def highestBlockNumber : U64 :=
  ledger.blocks.blocks.foldl
    (fun best block => if best < block.header.blockNumber then block.header.blockNumber else best) 0

/-- The timestamp of the block that arrived last; the clock, as long as there is none. -/
def lastTimestamp (now : U64) : U64 :=
  match ledger.blocks.blocks.getLast? with
  | some block => block.header.timestamp
  | none => now

/-- The receipt of an execution. The output of a deployment is the contract's address. -/
def executionReceipt (tx : Transaction) (execution : EvmExecutor.Execution) : TxReceipt where
  success := true
  gasUsed := execution.gasUsed
  logs := execution.logs
  contractAddress :=
    if tx.to = Address.zero ∧ tx.data ≠ [] ∧ 20 ≤ execution.output.length then
      some (BitVec.ofNat 160 ((execution.output.drop (execution.output.length - 20)).foldl
        (fun total byte => total * 256 + byte.toNat) 0))
    else
      none

/-- The interpreter moved the value; the fee is taken from the sender. -/
def chargeExecution (tx : Transaction) : Except ChainFault Ledger :=
  if 0 < tx.fee then do
    let balance := ledger.getBalance tx.from
    require (tx.fee ≤ balance) "Insufficient balance for transaction fee after EVM execution"
    .ok (ledger.writeBalance tx.from (balance - tx.fee) (ledger.getNonce tx.from))
  else
    .ok ledger

/-- Runs the interpreter and keeps what it changed. -/
def execute (host : Host) (encounter : Encounter) (executor : EvmExecutor) (tx : Transaction) :
    Except ChainFault (Ledger × EvmExecutor.Execution) :=
  match executor.executeTransaction ledger.database host.crypto host.interpreter tx
      ledger.highestBlockNumber (ledger.lastTimestamp encounter.now) with
  | .error none => .error .panic
  | .error (some reason) => .error (.error (.evm s!"EVM execution error: {reason}"))
  | .ok execution =>
    .ok ({ ledger with evmExecutor := some execution.executor, database :=
      execution.database }, execution)

def processExecution (host : Host) (encounter : Encounter) (executor : EvmExecutor)
    (tx : Transaction) : LedgerM Unit := do
  let (executed, execution) ← Fallible.ofExcept ((← get).execute host encounter executor tx)
  set executed
  let charged ← Fallible.ofExcept (executed.chargeExecution tx)
  set charged
  modify fun ledger => ledger.storeReceipt tx.hash (executionReceipt tx execution)

/-- The nullifier is spent; balances stay as they are. -/
def processPrivacyTransaction (privacyTx : PrivacyTransaction) : Ledger :=
  match PrivacyManager.extractNullifier privacyTx with
  | some nullifier =>
    { ledger with privacyManager :=
      ledger.privacyManager.map fun manager => manager.addNullifier nullifier }
  | none => ledger

/-- The executor, for a transaction that it has to handle. -/
def executorFor (tx : Transaction) : Option EvmExecutor :=
  if tx.data ≠ [] ∧ ledger.evmEnabled then ledger.evmExecutor else none

def checkReplay (tx : Transaction) : Except ChainFault Unit :=
  require (ledger.recentTxHashes.all fun hashes => tx.hash ∉ hashes)
    "Transaction already processed (replay detected)"

def processTransaction (host : Host) (encounter : Encounter) (tx : Transaction) : LedgerM Unit := do
  let ledger ← get
  Fallible.ofExcept (ledger.checkReplay tx)
  match privacyDataOf tx host with
  | some privacyTx => set (ledger.processPrivacyTransaction privacyTx)
  | none =>
    match ledger.executorFor tx with
    | some executor => processExecution host encounter executor tx
    | none => processTransfer encounter tx

def checkDoubleSpend (tx : Transaction) (blockHash : Hash) : Except ChainFault Unit :=
  match ledger.spentOutputs.lookup (tx.from, tx.nonce) with
  | none => .ok ()
  | some (spentIn, _) =>
    let sender := hexEncode (Bytes.be tx.from)
    let spender := hexEncode (Bytes.be spentIn)
    require (spentIn = blockHash)
      (s!"Double-spend detected: (address={sender}, nonce={tx.nonce.toNat}) " ++
        s!"already spent in block {spender}")

def recordSpentOutput (tx : Transaction) (blockHash : Hash) (blockNumber : U64) : Ledger :=
  { ledger with spentOutputs :=
    ledger.spentOutputs.insert (tx.from, tx.nonce) (blockHash, blockNumber) }

def pruneSpentOutputs (currentHeight : U64) : Ledger :=
  if currentHeight ≤ finalityDepth then
    ledger
  else
    { ledger with
      spentOutputs := Table.retain (fun _ entry => decide (currentHeight - finalityDepth < entry.2))
        ledger.spentOutputs }

def recordSponsorSpend (tx : Transaction) (currentBlock : U64) : Ledger :=
  match tx.sponsor with
  | some sponsor =>
    { ledger with sponsorRegistry :=
      ledger.sponsorRegistry.recordSpend sponsor tx.fee currentBlock }
  | none => ledger

/-- A time lock as `{:?}` prints it. -/
def lockText (lock : Option U64) : String :=
  match lock with
  | some value => s!"Some({value.toNat})"
  | none => "None"

def checkReady (tx : Transaction) (header : BlockHeader) : Except ChainFault Unit :=
  let atBlock := lockText tx.executeAtBlock
  let atTimestamp := lockText tx.executeAtTimestamp
  let currentBlock := header.blockNumber.toNat
  let currentTimestamp := header.timestamp.toNat
  require (tx.isReadyToExecute header.blockNumber header.timestamp)
    (s!"Time-locked transaction not ready: execute_at_block={atBlock}, " ++
      s!"execute_at_timestamp={atTimestamp}, " ++
      s!"current_block={currentBlock}, current_timestamp={currentTimestamp}")

/-- A transaction that goes through `validate_transaction`. -/
def isSpecial (host : Host) (tx : Transaction) : Bool :=
  tx.multisigSignatures.isSome || (privacyDataOf tx host).isSome

/-- The checks of a transaction in its turn. -/
def validateInBlock (host : Host) (encounter : Encounter) (block : Block) (tx : Transaction) :
    Except ChainFault Unit := do
  checkReady tx block.header
  ledger.checkDoubleSpend tx block.hash
  if isSpecial host tx then
    ledger.validateTransaction encounter tx host block.header.blockNumber
  else
    ledger.validateTxStatefulOnly encounter tx block.header.blockNumber

/-- One transaction in its turn, with the records made of it. -/
def applyTransaction (host : Host) (encounter : Encounter) (block : Block) (tx : Transaction) :
    LedgerM Unit := do
  Fallible.ofExcept ((← get).validateInBlock host encounter block tx)
  processTransaction host encounter tx
  modify fun ledger =>
    (ledger.recordSpentOutput tx block.hash block.header.blockNumber).recordSponsorSpend tx
      block.header.blockNumber

def applyTransactions (host : Host) (block : Block) : (Nat → Encounter) → List Transaction →
    LedgerM Unit
  | _, [] => pure ()
  | encounters, tx :: rest => do
      applyTransaction host (encounters 0) block tx
      applyTransactions host block (fun index => encounters (index + 1)) rest

/-- The pass ahead of the block. When several transactions fail, the first one's error stands. -/
def prePass (host : Host) (block : Block) : Except ChainFault Unit :=
  (block.transactions.filter fun tx => !isSpecial host tx).forM fun tx =>
    tx.verifyTxStateless host.crypto ledger.chainId ledger.evmEnabled block.header.blockNumber

def validateAndProcessTransactions (host : Host) (encounters : Nat → Encounter) (block : Block) :
    LedgerM Unit := do
  Fallible.ofExcept ((← get).prePass host block)
  applyTransactions host block encounters block.transactions
  modify fun ledger => ledger.pruneSpentOutputs block.header.blockNumber

end Ledger

end IronDag
