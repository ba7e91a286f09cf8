import IronDag.Chain.Ledger

namespace IronDag

def maxNonceGap : U64 := 16

/-- `u128::MAX / 2` -/
def maxTxValue : U128 := BitVec.ofNat 128 (2 ^ 127 - 1)

def maxGasLimit : U64 := 30000000

def maxTxDataSize : Nat := 128 * 1024

/-- The libraries and the build of a node. -/
structure Host where
  crypto : Crypto
  /-- Whether the `privacy` feature is compiled in. -/
  privacyBuild : Bool
  proofs : PrivacyProofs
  interpreter : EvmInterpreter
  /-- `verify_state_transition`: key, proof and public inputs. -/
  verifyStateTransition : Bytes → Bytes → List Hash → Except String Bool
  /-- The length of a block under `bincode`. -/
  serializedSize : Block → Except String Nat

/-- A build without the `privacy` feature, with libraries to run the model with. -/
def Host.sample : Host where
  crypto := Crypto.sample
  privacyBuild := false
  proofs := { deserializeProof := fun _ => none, verifyWithInputs := fun _ _ => false }
  interpreter := fun _ _ => .error "SputnikVM error: OutOfGas"
  verifyStateTransition := fun _ _ _ => .ok false
  serializedSize := fun block => .ok (200 + 300 * block.transactions.length)

/-- What a transaction meets while it is handled: which attempts to lock the wallet registry
succeed, and the clock. -/
structure Encounter where
  signersReadable : Bool
  nonceReadable : Bool
  limitsReadable : Bool
  registryWritable : Bool
  now : U64
  deriving DecidableEq, Repr

/-- The registry is free at every attempt. -/
def Encounter.uncontended (now : U64) : Encounter where
  signersReadable := true
  nonceReadable := true
  limitsReadable := true
  registryWritable := true
  now := now

def invalidTransaction {α : Type} (reason : String) : Except ChainFault α :=
  .error (.error (.invalidTransaction reason))

/-- Passes a check or rejects the transaction. -/
def require (passed : Bool) (reason : String) : Except ChainFault Unit :=
  if passed then .ok () else invalidTransaction reason

@[simp] theorem require_eq_ok : require passed reason = .ok done ↔ passed = true := by
  cases passed <;> simp [require, invalidTransaction]

namespace Transaction

variable (crypto : Crypto) (tx : Transaction)

/-- An error of the signature check counts as a failed one. -/
def checkSignature (currentBlock : U64) : Except ChainFault Unit :=
  match tx.verifySignature crypto currentBlock with
  | .error .panic => .error .panic
  | .error (.error _) => invalidTransaction "Invalid transaction signature"
  | .ok verified => require verified "Invalid transaction signature"

variable {crypto tx} in
theorem verifySignature_of_checkSignature
    (checked : tx.checkSignature crypto currentBlock = .ok ()) :
    tx.verifySignature crypto currentBlock = .ok true := by
  unfold checkSignature at checked
  split at checked
  · cases checked
  · cases checked
  · next verified accepted => rw [accepted, require_eq_ok.mp checked]

def checkFee : Except ChainFault Unit :=
  require (tx.fee ≠ 0 || tx.from = Address.zero) "transaction fee must be greater than zero"

def checkDataSize : Except ChainFault Unit :=
  require (tx.data.length ≤ maxTxDataSize)
    s!"transaction data size {tx.data.length} exceeds maximum {maxTxDataSize}"

def checkValue : Except ChainFault Unit :=
  require (tx.value ≤ maxTxValue) "transaction value exceeds maximum allowed"

def checkTotal : Except ChainFault Unit :=
  require (Word.checkedAdd tx.value tx.fee).isSome "transaction value + fee overflows"

def checkGasCeiling : Except ChainFault Unit :=
  require (tx.gasLimit ≤ maxGasLimit)
    s!"gas_limit {tx.gasLimit.toNat} exceeds maximum {maxGasLimit.toNat}"

def checkGasPositive : Except ChainFault Unit :=
  if tx.gasLimit = 0 then .error (.error (.validation "Gas limit cannot be zero")) else .ok ()

def checkChainId (chainId : U64) : Except ChainFault Unit :=
  match tx.chainId with
  | none => .ok ()
  | some carried =>
    require (carried = chainId) s!"Invalid chain ID: expected {chainId.toNat}, got {carried.toNat}"

def checkHash : Except ChainFault Unit :=
  require (tx.hash = tx.calculateHash crypto) "Invalid transaction hash"

def checkContractGas (evmEnabled : Bool) : Except ChainFault Unit :=
  if evmEnabled ∧ tx.data ≠ [] ∧ tx.gasLimit < 21000 then
    .error (.error (.validation "Gas limit too low for contract interaction"))
  else
    .ok ()

def verifyTxStateless (chainId : U64) (evmEnabled : Bool) (currentBlock : U64) :
    Except ChainFault Unit := do
  tx.checkSignature crypto currentBlock
  tx.checkFee
  tx.checkDataSize
  tx.checkValue
  tx.checkTotal
  tx.checkGasCeiling
  tx.checkGasPositive
  tx.checkChainId chainId
  tx.checkHash crypto
  tx.checkContractGas evmEnabled

/-- What a regular transaction has passed ahead of its block. -/
structure PassedStateless (chainId : U64) (evmEnabled : Bool) (currentBlock : U64) : Prop where
  signature : tx.checkSignature crypto currentBlock = .ok ()
  fee : tx.checkFee = .ok ()
  dataSize : tx.checkDataSize = .ok ()
  value : tx.checkValue = .ok ()
  total : tx.checkTotal = .ok ()
  gasCeiling : tx.checkGasCeiling = .ok ()
  gasPositive : tx.checkGasPositive = .ok ()
  chainId : tx.checkChainId chainId = .ok ()
  hash : tx.checkHash crypto = .ok ()
  contractGas : tx.checkContractGas evmEnabled = .ok ()

variable {crypto tx} in
theorem passedStateless_of_verify {chainId : U64}
    (verified : tx.verifyTxStateless crypto chainId evmEnabled currentBlock = .ok ()) :
    tx.PassedStateless crypto chainId evmEnabled currentBlock := by
  simp only [verifyTxStateless, Check.bind_eq_ok] at verified
  obtain ⟨signature, fee, dataSize, value, total, gasCeiling, gasPositive, chainId,
    hash, contractGas⟩ := verified
  exact ⟨signature, fee, dataSize, value, total, gasCeiling, gasPositive, chainId,
    hash, contractGas⟩

/-- One entry: an Ed25519 signature over the transaction hash under a key of the signer. -/
def checkEntry (entry : MultisigEntry) : Except ChainFault Unit := do
  let signer := hexEncode (Bytes.be entry.signer)
  let signatureLength := entry.signature.length
  let keyLength := entry.publicKey.length
  require (signatureLength = 64)
    s!"Invalid signature length for signer {signer}: expected 64, got {signatureLength}"
  require (keyLength = 32)
    s!"Invalid public key length for signer {signer}: expected 32, got {keyLength}"
  require (crypto.ed25519.verifyingKey entry.publicKey) s!"Invalid public key for signer {signer}"
  require (crypto.ed25519.signature entry.signature) s!"Invalid signature for signer {signer}"
  require (crypto.ed25519.verify entry.publicKey tx.hash entry.signature)
    s!"Invalid signature for signer {signer}"
  require (crypto.deriveEthAddress entry.publicKey = entry.signer)
    s!"Public key does not match signer address for {signer}"

def checkDistinct (seen : List Address) : List Address → Except ChainFault Unit
  | [] => .ok ()
  | signer :: rest => do
      require (signer ∉ seen) s!"Duplicate signer: {hexEncode (Bytes.be signer)}"
      checkDistinct (signer :: seen) rest

/-- The number of entries, all of which have to be valid. -/
def countValid : List MultisigEntry → Except ChainFault Nat
  | [] => .ok 0
  | entry :: rest => do
      tx.checkEntry crypto entry
      let others ← countValid rest
      .ok (others + 1)

/-- The signatures are at least `threshold` many, of distinct members of `signers`, and valid. -/
def checkSigners (entries : List MultisigEntry) (signers : List Address) (threshold : Byte) :
    Except ChainFault Unit := do
  require (threshold.toNat ≤ entries.length)
    s!"Insufficient signatures: need {threshold.toNat}, have {entries.length}"
  entries.forM fun entry =>
    require (entry.signer ∈ signers) s!"Unknown signer: {hexEncode (Bytes.be entry.signer)}"
  checkDistinct [] (entries.map MultisigEntry.signer)
  let valid ← tx.countValid crypto entries
  require (threshold.toNat ≤ valid)
    s!"Insufficient valid signatures: need {threshold.toNat}, have {valid}"

end Transaction

namespace Ledger

variable (ledger : Ledger) (encounter : Encounter) (tx : Transaction)

/-- The registry, if there is one and it can be locked. -/
def registryIf (available : Bool) : Option WalletRegistry :=
  if available then ledger.walletRegistry else none

/-- Without a registry at hand nothing is checked. -/
def checkMultisig (crypto : Crypto) (entries : List MultisigEntry) : Except ChainFault Unit :=
  match ledger.registryIf encounter.signersReadable with
  | none => .ok ()
  | some registry =>
    match registry.lookup tx.from with
    | none => invalidTransaction "Multi-sig transaction from non-contract wallet"
    | some wallet =>
      match wallet.signerPolicy with
      | none => invalidTransaction "Multi-sig signatures provided but wallet is not multi-sig"
      | some (signers, threshold) => tx.checkSigners crypto entries signers threshold

/-- The nonce a transaction has to carry: the wallet's, or else the account's. -/
def currentNonce : U64 :=
  match (ledger.registryIf encounter.nonceReadable).bind fun registry =>
    registry.lookup tx.from with
  | some wallet => wallet.nonce
  | none => ledger.getNonce tx.from

def checkNonce : Except ChainFault Unit :=
  let current := ledger.currentNonce encounter tx
  if tx.nonce = current then
    .ok ()
  else if Word.saturatingAdd current maxNonceGap < tx.nonce then
    invalidTransaction
      (s!"Nonce gap too large: tx nonce {tx.nonce.toNat} but account nonce is " ++
        s!"{current.toNat}. Max gap is {maxNonceGap.toNat}.")
  else
    invalidTransaction s!"Invalid nonce: expected {current.toNat}, got {tx.nonce.toNat}"

def checkSpendingLimits : Except ChainFault Unit :=
  match (ledger.registryIf encounter.limitsReadable).bind fun registry =>
    registry.lookup tx.from with
  | none => .ok ()
  | some wallet =>
    if wallet.hasSpendingLimits then
      match wallet.spendingLimits with
      | none => .ok ()
      | some limits =>
        match limits.checkLimit encounter.now tx.value with
        | .ok _ => .ok ()
        | .error reason => invalidTransaction s!"Spending limit exceeded: {reason}"
    else
      .ok ()

/-- The sender can pay the value, and whoever pays the fee can pay it. -/
def checkBalances : Except ChainFault Unit := do
  let balance := ledger.getBalance tx.from
  require (tx.value ≤ balance)
    s!"Insufficient balance: have {balance.toNat}, need {tx.value.toNat} (value)"
  match tx.sponsor with
  | some sponsor =>
    let sponsorBalance := ledger.getBalance sponsor
    require (tx.fee ≤ sponsorBalance)
      (s!"Insufficient sponsor balance: sponsor has {sponsorBalance.toNat}, " ++
        s!"needs {tx.fee.toNat} (fee)")
  | none =>
    let total := Word.saturatingAdd tx.value tx.fee
    require (total ≤ balance)
      (s!"Insufficient balance: have {balance.toNat}, need {total.toNat} " ++
        s!"(value: {tx.value.toNat} + fee: {tx.fee.toNat})")

def checkSponsorPolicy (currentBlock : U64) : Except ChainFault Unit :=
  match tx.sponsor with
  | none => .ok ()
  | some sponsor =>
    match ledger.sponsorRegistry.check sponsor tx.from tx.fee currentBlock with
    | .ok _ => .ok ()
    | .error reason => invalidTransaction s!"Sponsor policy violation: {reason}"

def validateTxStatefulOnly (currentBlock : U64) : Except ChainFault Unit := do
  ledger.checkSponsorPolicy tx currentBlock
  ledger.checkNonce encounter tx
  ledger.checkSpendingLimits encounter tx
  ledger.checkBalances tx

def validatePrivacyTransaction (proofs : PrivacyProofs) (privacyTx : PrivacyTransaction) :
    Except ChainFault Unit := do
  match ledger.privacyManager with
  | none => invalidTransaction "Privacy manager not available"
  | some manager =>
    require (privacyTx.proof ≠ []) "Privacy transaction missing proof"
    match proofs.deserializeProof privacyTx.proof with
    | some reason => invalidTransaction s!"Failed to deserialize privacy proof: {reason}"
    | none =>
      require (manager.verifyProof proofs privacyTx.proof
        (privacyTx.publicInputs.map PrivacyManager.padded)) "Privacy proof verification failed"
      match PrivacyManager.extractNullifier privacyTx with
      | none => invalidTransaction "Could not extract nullifier from privacy transaction"
      | some nullifier =>
        require (nullifier ∉ manager.nullifiers) "Nullifier already spent (double-spend attempt)"

/-- The privacy data of a transaction, in builds that know of them. -/
def privacyDataOf (host : Host) : Option PrivacyTransaction :=
  if host.privacyBuild then tx.privacyData else none

/-- The multi-signature check, or else the check of the one signature. -/
def checkAuthorisation (host : Host) (currentBlock : U64) : Except ChainFault Unit :=
  match tx.multisigSignatures with
  | some entries => ledger.checkMultisig encounter tx host.crypto entries
  | none => tx.checkSignature host.crypto currentBlock

def validateTransaction (host : Host) (currentBlock : U64) : Except ChainFault Unit :=
  match privacyDataOf tx host with
  | some privacyTx => ledger.validatePrivacyTransaction host.proofs privacyTx
  | none => do
      ledger.checkAuthorisation encounter tx host currentBlock
      tx.checkFee
      tx.checkDataSize
      tx.checkValue
      tx.checkTotal
      tx.checkGasCeiling
      tx.checkChainId ledger.chainId
      tx.checkHash host.crypto
      ledger.checkNonce encounter tx
      ledger.checkSpendingLimits encounter tx
      ledger.checkBalances tx
      tx.checkGasPositive
      tx.checkContractGas ledger.evmEnabled

/-- What a transaction that is checked as a whole has passed. -/
structure PassedWhole (host : Host) (currentBlock : U64) : Prop where
  authorisation : ledger.checkAuthorisation encounter tx host currentBlock = .ok ()
  fee : tx.checkFee = .ok ()
  dataSize : tx.checkDataSize = .ok ()
  value : tx.checkValue = .ok ()
  total : tx.checkTotal = .ok ()
  gasCeiling : tx.checkGasCeiling = .ok ()
  chainId : tx.checkChainId ledger.chainId = .ok ()
  hash : tx.checkHash host.crypto = .ok ()
  nonce : ledger.checkNonce encounter tx = .ok ()
  spendingLimits : ledger.checkSpendingLimits encounter tx = .ok ()
  balances : ledger.checkBalances tx = .ok ()
  gasPositive : tx.checkGasPositive = .ok ()
  contractGas : tx.checkContractGas ledger.evmEnabled = .ok ()

variable {ledger encounter tx} in
theorem passedWhole_of_validate (plain : privacyDataOf tx host = none)
    (validated : ledger.validateTransaction encounter tx host currentBlock = .ok ()) :
    ledger.PassedWhole encounter tx host currentBlock := by
  simp only [validateTransaction, plain, Check.bind_eq_ok] at validated
  obtain ⟨authorisation, fee, dataSize, value, total, gasCeiling, chainId, hash, nonce,
    spendingLimits, balances, gasPositive, contractGas⟩ := validated
  exact ⟨authorisation, fee, dataSize, value, total, gasCeiling, chainId, hash, nonce,
    spendingLimits, balances, gasPositive, contractGas⟩

theorem checkSponsorPolicy_eq_ok : ledger.checkSponsorPolicy tx currentBlock = .ok () ↔
    ∀ sponsor, tx.sponsor = some sponsor →
      ledger.sponsorRegistry.check sponsor tx.from tx.fee currentBlock = .ok () := by
  unfold checkSponsorPolicy
  cases tx.sponsor with
  | none => simp
  | some sponsor =>
    cases checked : ledger.sponsorRegistry.check sponsor tx.from tx.fee currentBlock <;>
      simp [invalidTransaction, checked]

/-- The two lists of checks, in their different orders, accept the same transactions up to the
policy of the sponsor. -/
theorem splitValidation_iff_validateTransaction (host : Host) (currentBlock : U64)
    (single : tx.multisigSignatures = none) (plain : tx.privacyData = none) :
    (tx.verifyTxStateless host.crypto ledger.chainId ledger.evmEnabled currentBlock = .ok () ∧
        ledger.validateTxStatefulOnly encounter tx currentBlock = .ok ()) ↔
      ledger.validateTransaction encounter tx host currentBlock = .ok () ∧
        ∀ sponsor, tx.sponsor = some sponsor →
          ledger.sponsorRegistry.check sponsor tx.from tx.fee currentBlock = .ok () := by
  have regular : privacyDataOf tx host = none := by simp [privacyDataOf, plain]
  rw [← checkSponsorPolicy_eq_ok]
  simp only [Transaction.verifyTxStateless, validateTxStatefulOnly, validateTransaction, regular,
    checkAuthorisation, single, Check.bind_eq_ok]
  tauto

/-- The sender has the value of a transfer, and the sponsor its fee, within the policy it has
registered. -/
def sponsoring : Ledger :=
  { Ledger.new with
    accounts := ((∅ : Table Address AccountState).insert Transaction.sampleSender
      { balance := 1000, nonce := 0 }).insert 9 { balance := 21000, nonce := 0 }
    sponsorRegistry := (∅ : SponsorRegistry).insert 9
      { active := true, allowedSenders := none, maxFeePerTx := some 21000,
        expiresAtBlock := some 100
        dailySpendLimit := some 50000, windowStartBlock := 0, spentInWindow := 0 } }

def sponsoredTransfer : Transaction :=
  ((Transaction.new Crypto.sample Transaction.sampleSender 5 1000 21000 0).withSponsor
    Crypto.sample 9).signSample

theorem sponsoredTransfer_validated :
    sponsoring.validateTransaction (.uncontended 1600000020) sponsoredTransfer Host.sample 7 =
        .ok () ∧
      sponsoring.sponsorRegistry.check 9 sponsoredTransfer.from sponsoredTransfer.fee 7 =
        .ok () := by
  have both :=
    (splitValidation_iff_validateTransaction sponsoring (.uncontended 1600000020) sponsoredTransfer
    Host.sample 7 rfl rfl).mp ⟨by decide +kernel, by decide +kernel⟩
  exact ⟨both.1, both.2 9 rfl⟩

end Ledger

end IronDag
