import IronDag.Types

namespace IronDag

open Bytes

inductive PqAccountType where
  | dilithium3
  | sphincsPlus
  | ed25519
  deriving DecidableEq, Repr

structure PqSignature where
  accountType : PqAccountType
  signature : Bytes
  publicKey : Bytes
  deriving DecidableEq, Repr

structure EcdsaSignature where
  r : BitVec 256
  s : BitVec 256
  v : U64
  deriving DecidableEq, Repr

/-- One entry of `multisig_signatures`. -/
structure MultisigEntry where
  signer : Address
  signature : Bytes
  publicKey : Bytes
  deriving DecidableEq, Repr

structure PrivacyTransaction where
  proof : Bytes
  publicInputs : List Bytes
  deriving DecidableEq, Repr

structure Transaction where
  «from» : Address
  «to» : Address
  value : U128
  fee : U128
  nonce : U64
  data : Bytes
  gasLimit : U64
  hash : Hash
  maxFeePerGas : Option U128
  maxPriorityFeePerGas : Option U128
  signature : Bytes
  publicKey : Bytes
  pqSignature : Option PqSignature
  ecdsaSignature : Option EcdsaSignature
  chainId : Option U64
  executeAtBlock : Option U64
  executeAtTimestamp : Option U64
  sponsor : Option Address
  multisigSignatures : Option (List MultisigEntry)
  /-- A field of builds with the `privacy` feature only. -/
  privacyData : Option PrivacyTransaction
  deriving DecidableEq, Repr

namespace PqAccount

/-- The domain tag that keeps the address ranges of the account types apart. -/
def addressTag : PqAccountType → Bytes
  | .dilithium3 => ofText "DILITHIUM3"
  | .sphincsPlus => ofText "SPHINCS+"
  | .ed25519 => ofText "ED25519"

def deriveAddress (crypto : Crypto) (publicKey : Bytes) (accountType : PqAccountType) : Address :=
  (crypto.keccak256 (addressTag accountType ++ publicKey)).setWidth 160

/-- The signed message opens under the carried key to exactly the transaction hash. -/
def opensTo (scheme : SignedMessageScheme) (messageHash : Hash) (signature : PqSignature) : Bool :=
  scheme.publicKey signature.publicKey && scheme.signedMessage signature.signature &&
    decide (scheme.openMessage signature.signature signature.publicKey =
      some (be messageHash))

def verifySignature (crypto : Crypto) (messageHash : Hash) (signature : PqSignature) : Bool :=
  match signature.accountType with
  | .dilithium3 => opensTo crypto.mldsa65 messageHash signature
  | .sphincsPlus =>
    match crypto.sphincsPlus with
    | some scheme => opensTo scheme messageHash signature
    | none => false
  | .ed25519 => false

end PqAccount

/-- The chain id and recovery id packed into `v`. -/
def EcdsaSignature.recovery (sig : EcdsaSignature) : Option U64 × Byte :=
  if 35 ≤ sig.v then
    (some ((sig.v - 35) / 2), ((sig.v - 35) % 2).setWidth 8)
  else if 27 ≤ sig.v then
    (none, (sig.v - 27).setWidth 8)
  else
    (none, sig.v.setWidth 8)

def EcdsaSignature.bytes (sig : EcdsaSignature) : Bytes :=
  be sig.r ++ be sig.s

namespace Transaction

variable (crypto : Crypto)

/-- The bytes hashed by `calculate_hash`. No signature is among them. -/
def hashPreimage (tx : Transaction) : Bytes :=
  be tx.from ++ be tx.to ++ le tx.value ++ le tx.fee ++
    le tx.nonce ++ tx.data ++ le tx.gasLimit ++
    (tx.maxFeePerGas.map le).getD [] ++
    (tx.maxPriorityFeePerGas.map le).getD [] ++
    (tx.chainId.map le).getD [] ++
    (tx.executeAtBlock.map le).getD [] ++
    (tx.executeAtTimestamp.map le).getD [] ++
    (tx.sponsor.map be).getD []

def calculateHash (tx : Transaction) : Hash :=
  crypto.keccak256 tx.hashPreimage

/-- An unsigned legacy transaction. -/
def withData (sender receiver : Address) (value fee : U128) (nonce : U64) (data : Bytes)
    (gasLimit : U64) : Transaction :=
  let tx : Transaction :=
    { «from» := sender, «to» := receiver, value, fee, nonce, data, gasLimit, hash := 0
      maxFeePerGas := none, maxPriorityFeePerGas := none
      signature := List.replicate 64 0, publicKey := []
      pqSignature := none, ecdsaSignature := none, chainId := none
      executeAtBlock := none, executeAtTimestamp := none, sponsor := none
      multisigSignatures := none, privacyData := none }
  { tx with hash := tx.calculateHash crypto }

def new (sender receiver : Address) (value fee : U128) (nonce : U64) : Transaction :=
  withData crypto sender receiver value fee nonce [] 21000

def withSponsor (tx : Transaction) (sponsor : Address) : Transaction :=
  let sponsored := { tx with sponsor := some sponsor }
  { sponsored with hash := sponsored.calculateHash crypto }

def withMultisigSignatures (tx : Transaction) (signatures : List MultisigEntry) : Transaction :=
  let carried := { tx with multisigSignatures := some signatures }
  { carried with hash := carried.calculateHash crypto }

def isReadyToExecute (tx : Transaction) (currentBlock currentTimestamp : U64) : Bool :=
  tx.executeAtBlock.all (fun block => decide (block ≤ currentBlock)) &&
    tx.executeAtTimestamp.all (fun timestamp => decide (timestamp ≤ currentTimestamp))

/-- The price per unit of gas that the fee amounts to. -/
def gasPrice (tx : Transaction) : U128 :=
  tx.fee / tx.gasLimit.setWidth 128

/-- The hash an ECDSA signature is recovered against. With a chain id the fee is divided by the
gas limit unguarded; without one a zero gas limit stands for a zero price. -/
def ecdsaMessageHash (tx : Transaction) (extracted : Option U64) : Except (Fault String) Hash :=
  match tx.chainId.or extracted with
  | some chainId =>
    if tx.gasLimit = 0 then
      .error .panic
    else
      .ok (crypto.keccak256 (crypto.rlp.u64 tx.nonce ++ crypto.rlp.u128 tx.gasPrice ++
        crypto.rlp.u64 tx.gasLimit ++
        crypto.rlp.slice (if tx.to = Address.zero then [] else be tx.to) ++
        crypto.rlp.u128 tx.value ++ crypto.rlp.vec tx.data ++ crypto.rlp.u64 chainId ++
        crypto.rlp.u8 0 ++ crypto.rlp.u8 0))
  | none =>
    .ok (crypto.keccak256 (crypto.rlp.u64 tx.nonce ++
      crypto.rlp.u128 (if 0 < tx.gasLimit then tx.gasPrice else 0) ++
      crypto.rlp.u64 tx.gasLimit ++ crypto.rlp.slice (be tx.to) ++
      crypto.rlp.u128 tx.value ++ crypto.rlp.vec tx.data))

/-- The key recovered from an ECDSA signature, without the tag of the uncompressed form. -/
def recoverEcdsaKey (tx : Transaction) (sig : EcdsaSignature) :
    Except (Fault String) (Option Bytes) :=
  let (extracted, recoveryId) := sig.recovery
  if !crypto.secp256k1.recoveryId recoveryId then
    .ok none
  else do
    let messageHash ← tx.ecdsaMessageHash crypto extracted
    if !crypto.secp256k1.signature sig.bytes then
      .ok none
    else
      match crypto.secp256k1.recoverFromPrehash messageHash sig.bytes recoveryId with
      | some point =>
        .ok (if point.length = 65 ∧ point.head? = some 4 then some point.tail else none)
      | none => .ok none

def verifyEcdsaSignature (tx : Transaction) (sig : EcdsaSignature) :
    Except (Fault String) Bool := do
  match ← tx.recoverEcdsaKey crypto sig with
  | some key => .ok (decide (crypto.deriveEthAddress key = tx.from))
  | none => .ok false

/-- The Ed25519 signature is absent or all zero, and there is no key. -/
def isUnsigned (tx : Transaction) : Bool :=
  (tx.signature.isEmpty || tx.signature.all (fun byte => decide (byte = 0))) && tx.publicKey.isEmpty

/-- The Ed25519 signature has the right shape and verifies over the transaction hash. -/
def verifyEd25519 (tx : Transaction) : Bool :=
  decide (tx.signature.length = 64) && decide (tx.publicKey.length = 32) &&
    crypto.ed25519.verifyingKey tx.publicKey && crypto.ed25519.signature tx.signature &&
    crypto.ed25519.verify tx.publicKey tx.hash tx.signature

/-- Post-quantum signatures take precedence over ECDSA ones, and those over Ed25519. -/
def verifySignature (tx : Transaction) (blockHeight : U64) : Except (Fault String) Bool :=
  match tx.pqSignature with
  | some signature => .ok (PqAccount.verifySignature crypto tx.hash signature)
  | none =>
    match tx.ecdsaSignature with
    | some signature => tx.verifyEcdsaSignature crypto signature
    | none =>
      if tx.from = Address.zero && tx.isUnsigned then
        if blockHeight = 0 then
          .ok true
        else
          .error (.error "system transactions only valid at genesis")
      else
        .ok (tx.verifyEd25519 crypto && decide (crypto.deriveEthAddress tx.publicKey = tx.from))

def sampleKey : Bytes := List.replicate 32 7

def sampleSender : Address := Crypto.sample.deriveEthAddress sampleKey

def signSample (tx : Transaction) : Transaction :=
  { tx with publicKey := sampleKey, signature := sampleKey ++ Bytes.be tx.hash }

end Transaction

end IronDag
