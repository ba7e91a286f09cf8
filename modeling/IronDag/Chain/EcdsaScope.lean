import IronDag.Chain.SenderBinding
import IronDag.Chain.Validate
import IronDag.Lib.LengthPrefix
import Mathlib.Algebra.Order.BigOperators.Group.List
import Mathlib.Data.Set.Function

namespace IronDag

open LengthPrefix Rlp

/-- The encodings of `alloy_rlp`. A vector of bytes is a list of integers. -/
def Rlp.alloy : Rlp where
  u8 := fun byte => encodeNat byte.toNat
  u64 := fun word => encodeNat word.toNat
  u128 := fun word => encodeNat word.toNat
  slice := encodeString
  vec := fun bytes => encodeList (bytes.flatMap fun byte => encodeNat byte.toNat)

namespace Rlp

open Bytes (SplitsOff)

theorem splitsOff_word (fits : w ≤ 256) :
    SplitsOff (fun _ => True) fun word : BitVec w => encodeNat word.toNat := by
  intro left right _ _ behindLeft behindRight same
  have bound : ∀ word : BitVec w, word.toNat < 256 ^ 32 := fun word =>
    word.isLt.trans_le (Nat.pow_le_pow_right (by decide) fits)
  obtain ⟨number, behind⟩ := splitsOff_encodeNat (bound left) (bound right) same
  exact ⟨BitVec.eq_of_toNat_eq number, behind⟩

theorem splitsOff_vec : SplitsOff (fun bytes => bytes.length ≤ maxTxDataSize) alloy.vec := by
  intro left right leftFits rightFits behindLeft behindRight same
  have bound : ∀ bytes : Bytes, bytes.length ≤ maxTxDataSize →
      (bytes.flatMap fun byte => encodeNat byte.toNat).length < 256 ^ 8 := by
    intro bytes fits
    have total : (bytes.flatMap fun byte => encodeNat byte.toNat).length ≤ bytes.length * 2 := by
      rw [List.length_flatMap]
      refine (List.sum_le_card_nsmul _ 2 ?_).trans_eq (by simp)
      intro length member
      obtain ⟨byte, -, rfl⟩ := List.mem_map.mp member
      exact length_encodeNat_le byte.isLt
    unfold maxTxDataSize at fits
    omega
  obtain ⟨payload, behind⟩ :=
    splitsOff_encodeList (bound left leftFits) (bound right rightFits) same
  have word : SplitsOff (fun _ => True) fun byte : Byte => encodeNat byte.toNat :=
    splitsOff_word (by decide)
  exact ⟨word.flatMap_injective (fun byte => encodeString_ne_nil _) payload, behind⟩

end Rlp

namespace Transaction

variable (crypto : Crypto) {first second : Transaction}

/-- The bytes that an ECDSA signature signs, by the chain id in effect. -/
def signingPreimage (tx : Transaction) (chainId : Option U64) : Bytes :=
  match chainId with
  | some chainId =>
    crypto.rlp.u64 tx.nonce ++ crypto.rlp.u128 tx.gasPrice ++ crypto.rlp.u64 tx.gasLimit ++
      crypto.rlp.slice (if tx.to = Address.zero then [] else Bytes.be tx.to) ++
      crypto.rlp.u128 tx.value ++ crypto.rlp.vec tx.data ++ crypto.rlp.u64 chainId ++
      crypto.rlp.u8 0 ++ crypto.rlp.u8 0
  | none =>
    crypto.rlp.u64 tx.nonce ++ crypto.rlp.u128 (if 0 < tx.gasLimit then tx.gasPrice else 0) ++
      crypto.rlp.u64 tx.gasLimit ++ crypto.rlp.slice (Bytes.be tx.to) ++ crypto.rlp.u128 tx.value ++
      crypto.rlp.vec tx.data

/-- The chain id that the signed message carries, if any. -/
def signedChainId (tx : Transaction) (signature : EcdsaSignature) : Option U64 :=
  tx.chainId.or signature.recovery.1

/-- The hash of the signed message. -/
def signedDigest (tx : Transaction) (signature : EcdsaSignature) : Hash :=
  crypto.keccak256 (tx.signingPreimage crypto (tx.signedChainId signature))

variable {tx : Transaction} {chainId : Option U64} {signature : EcdsaSignature}

theorem ecdsaMessageHash_eq (positive : tx.gasLimit ≠ 0) :
    tx.ecdsaMessageHash crypto signature.recovery.1 = .ok (tx.signedDigest crypto signature) := by
  unfold ecdsaMessageHash signedDigest signedChainId
  cases tx.chainId.or signature.recovery.1 with
  | none => rfl
  | some chainId =>
    dsimp only
    rw [if_neg positive]
    rfl

/-- The receiver as it is signed: a contract creation of a known chain has none. -/
def signedReceiver (tx : Transaction) (chainId : Option U64) : Bytes :=
  if chainId.isSome ∧ tx.to = Address.zero then [] else Bytes.be tx.to

/-- What follows the data in the signed message. -/
def signedTail (chainId : Option U64) : Bytes :=
  chainId.elim [] fun chainId => crypto.rlp.u64 chainId ++ crypto.rlp.u8 0 ++ crypto.rlp.u8 0

theorem signingPreimage_eq (positive : tx.gasLimit ≠ 0) :
    tx.signingPreimage crypto chainId = crypto.rlp.u64 tx.nonce ++ (crypto.rlp.u128 tx.gasPrice ++
      (crypto.rlp.u64 tx.gasLimit ++ (crypto.rlp.slice (tx.signedReceiver chainId) ++
        (crypto.rlp.u128 tx.value ++ (crypto.rlp.vec tx.data ++ signedTail crypto chainId))))) := by
  cases chainId with
  | none =>
    have priced : 0 < tx.gasLimit :=
      BitVec.lt_def.mpr (Nat.pos_of_ne_zero fun zero => positive (BitVec.eq_of_toNat_eq zero))
    rw [signingPreimage, if_pos priced]
    simp [signedReceiver, signedTail]
  | some chainId => simp [signingPreimage, signedReceiver, signedTail]

/-- The two transactions agree on what an ECDSA signature signs, the chain id apart. -/
structure SameSigned (first second : Transaction) : Prop where
  nonce : first.nonce = second.nonce
  gasPrice : first.gasPrice = second.gasPrice
  gasLimit : first.gasLimit = second.gasLimit
  receiver : first.to = second.to
  value : first.value = second.value
  data : first.data = second.data

theorem SameSigned.signingPreimage (signed : SameSigned first second) (chainId : Option U64) :
    first.signingPreimage crypto chainId = second.signingPreimage crypto chainId := by
  cases chainId with
  | none =>
    simp only [Transaction.signingPreimage, signed.nonce, signed.gasPrice, signed.gasLimit,
      signed.receiver, signed.value, signed.data]
  | some chainId =>
    simp only [Transaction.signingPreimage, signed.nonce, signed.gasPrice, signed.gasLimit,
      signed.receiver, signed.value, signed.data]

variable {crypto}

theorem signedTail_injective (encoding : crypto.rlp = alloy) :
    Function.Injective (signedTail crypto) := by
  intro left right same
  unfold signedTail at same
  rw [encoding] at same
  have some_ne : ∀ word : U64, alloy.u64 word ++ alloy.u8 0 ++ alloy.u8 0 ≠ [] := by
    simp [alloy, LengthPrefix.encodeNat, encodeString_ne_nil]
  cases left with
  | none =>
    cases right with
    | none => rfl
    | some chainId => exact absurd same.symm (some_ne chainId)
  | some chainId =>
    cases right with
    | none => exact absurd same (some_ne chainId)
    | some other =>
      simp only [List.append_assoc] at same
      exact congrArg some (splitsOff_word (by decide) trivial trivial same).1

theorem signedReceiver_injective
    (same : first.signedReceiver chainId = second.signedReceiver chainId) :
    first.to = second.to := by
  have unsigned : ∀ tx : Transaction, Bytes.be tx.to ≠ [] := by
    intro tx none
    have width := Bytes.length_be tx.to
    rw [none] at width
    cases width
  unfold signedReceiver at same
  split at same
  · next creation =>
    split at same
    · next other => exact creation.2.trans other.2.symm
    · exact absurd same.symm (unsigned second)
  · split at same
    · exact absurd same (unsigned first)
    · exact Bytes.be_injective (by decide) same

theorem length_signedReceiver_lt : (tx.signedReceiver chainId).length < 256 ^ 8 := by
  unfold signedReceiver
  split
  · decide
  · rw [Bytes.length_be]
    decide

/-- The signed message determines its fields and the chain id. -/
theorem sameSigned_of_signingPreimage (encoding : crypto.rlp = alloy)
    (firstGas : first.gasLimit ≠ 0) (secondGas : second.gasLimit ≠ 0)
    (firstData : first.data.length ≤ maxTxDataSize)
    (secondData : second.data.length ≤ maxTxDataSize)
    (same : first.signingPreimage crypto firstChain = second.signingPreimage crypto secondChain) :
    SameSigned first second ∧ firstChain = secondChain := by
  rw [signingPreimage_eq crypto firstGas, signingPreimage_eq crypto secondGas] at same
  have tails := @signedTail_injective crypto encoding
  rw [encoding] at same
  obtain ⟨nonce, same⟩ := splitsOff_word (by decide) trivial trivial same
  obtain ⟨gasPrice, same⟩ := splitsOff_word (by decide) trivial trivial same
  obtain ⟨gasLimit, same⟩ := splitsOff_word (by decide) trivial trivial same
  obtain ⟨receiver, same⟩ :=
    splitsOff_encodeString length_signedReceiver_lt length_signedReceiver_lt same
  obtain ⟨value, same⟩ := splitsOff_word (by decide) trivial trivial same
  obtain ⟨data, same⟩ := splitsOff_vec firstData secondData same
  have chain : firstChain = secondChain := tails same
  subst chain
  exact ⟨⟨nonce, gasPrice, gasLimit, signedReceiver_injective receiver, value, data⟩, rfl⟩

/-- The two transactions are executed alike. -/
structure SameExecution (first second : Transaction) : Prop where
  nonce : first.nonce = second.nonce
  receiver : first.to = second.to
  value : first.value = second.value
  data : first.data = second.data
  gasLimit : first.gasLimit = second.gasLimit
  fee : first.fee = second.fee
  sponsor : first.sponsor = second.sponsor
  executeAtBlock : first.executeAtBlock = second.executeAtBlock
  executeAtTimestamp : first.executeAtTimestamp = second.executeAtTimestamp

theorem gasLimit_ne_zero {chainId : U64}
    (passed : tx.PassedStateless crypto chainId evmEnabled currentBlock) : tx.gasLimit ≠ 0 := by
  intro zero
  have positive := passed.gasPositive
  rw [checkGasPositive, if_pos zero] at positive
  cases positive

/-- A deciding ECDSA signature that is accepted recovers a key of the sender from the signed
digest. -/
theorem recovered_of_accepted {chainId : U64}
    (decides : tx.pqSignature = none) (carried : tx.ecdsaSignature = some signature)
    (passed : tx.PassedStateless crypto chainId evmEnabled currentBlock) :
    ∃ point, crypto.secp256k1.recoverFromPrehash (tx.signedDigest crypto signature) signature.bytes
      signature.recovery.2 = some point ∧ crypto.deriveEthAddress point.tail = tx.from := by
  have verified := verifySignature_of_checkSignature passed.signature
  simp only [verifySignature, decides, carried] at verified
  obtain ⟨key, recovered, sender⟩ := (verifyEcdsaSignature_accepts crypto).mp verified
  simp only [recoverEcdsaKey, ecdsaMessageHash_eq crypto (gasLimit_ne_zero passed),
    bind, Except.bind] at recovered
  split at recovered
  · cases recovered
  · split at recovered
    · cases recovered
    · split at recovered
      · next point found =>
        split at recovered
        · cases recovered
          exact ⟨point, found, sender⟩
        · cases recovered
      · cases recovered

/-- What is assumed of the libraries: `alloy_rlp` encodes as documented, Keccak-256 does not collide
on the two signed messages, and one signature does not recover one address from two digests. -/
structure EcdsaAssumptions (crypto : Crypto) (first second : Transaction)
    (signature : EcdsaSignature) : Prop where
  encoding : crypto.rlp = Rlp.alloy
  collisionFree : Set.InjOn crypto.keccak256
    {first.signingPreimage crypto (first.signedChainId signature),
      second.signingPreimage crypto (second.signedChainId signature)}
  recovery : ∀ {point other : Bytes},
    crypto.secp256k1.recoverFromPrehash (first.signedDigest crypto signature) signature.bytes
      signature.recovery.2 = some point →
    crypto.secp256k1.recoverFromPrehash (second.signedDigest crypto signature) signature.bytes
      signature.recovery.2 = some other →
    crypto.deriveEthAddress point.tail = crypto.deriveEthAddress other.tail →
    first.signedDigest crypto signature = second.signedDigest crypto signature

/-- The transactions agree on what the signature does not cover: the fee beyond a multiple of the
gas limit, the sponsor, the time locks, the chain where one of them names none, and everything where
a post-quantum signature is checked in its place. -/
structure SameUncovered (first second : Transaction) (firstChain secondChain : U64) : Prop where
  fee : first.fee % first.gasLimit.setWidth 128 = second.fee % second.gasLimit.setWidth 128
  sponsor : first.sponsor = second.sponsor
  executeAtBlock : first.executeAtBlock = second.executeAtBlock
  executeAtTimestamp : first.executeAtTimestamp = second.executeAtTimestamp
  chain : first.chainId = none ∨ second.chainId = none → firstChain = secondChain
  unchecked : first.pqSignature ≠ none ∨ second.pqSignature ≠ none →
    SameSigned first second ∧ firstChain = secondChain

/-- The fee is the gas price times the gas limit and a remainder. -/
theorem fee_eq_of_remainder (signed : SameSigned first second)
    (remainder : first.fee % first.gasLimit.setWidth 128 =
      second.fee % second.gasLimit.setWidth 128) :
    first.fee = second.fee := by
  have price := signed.gasPrice
  unfold gasPrice at price
  rw [signed.gasLimit] at price remainder
  apply BitVec.eq_of_toNat_eq
  have quotients := congrArg BitVec.toNat price
  have remainders := congrArg BitVec.toNat remainder
  rw [BitVec.toNat_udiv, BitVec.toNat_udiv] at quotients
  rw [BitVec.toNat_umod, BitVec.toNat_umod] at remainders
  rw [← Nat.div_add_mod first.fee.toNat (second.gasLimit.setWidth 128).toNat, quotients, remainders,
    Nat.div_add_mod]

section Accepted

variable {signature : EcdsaSignature} {firstChain secondChain : U64} {firstEvm secondEvm : Bool}

theorem chain_of_carried {chainId carried : U64}
    (passed : tx.PassedStateless crypto chainId evmEnabled currentBlock)
    (named : tx.chainId = some carried) :
    carried = chainId := by
  have checked := passed.chainId
  simpa [checkChainId, named] using checked

theorem dataSize_le {chainId : U64}
    (passed : tx.PassedStateless crypto chainId evmEnabled currentBlock) :
    tx.data.length ≤ maxTxDataSize := by
  simpa [checkDataSize] using passed.dataSize

/-- Two transactions that one signature decides agree on the signed fields and on the signed
chain. -/
theorem sameSigned_of_accepted (assumed : EcdsaAssumptions crypto first second signature)
    (firstPassed : first.PassedStateless crypto firstChain firstEvm firstBlock)
    (secondPassed : second.PassedStateless crypto secondChain secondEvm secondBlock)
    (firstCarried : first.ecdsaSignature = some signature)
    (secondCarried : second.ecdsaSignature = some signature)
    (firstDecides : first.pqSignature = none) (secondDecides : second.pqSignature = none)
    (sender : first.from = second.from) :
    SameSigned first second ∧ first.signedChainId signature = second.signedChainId signature := by
  obtain ⟨point, recovered, owner⟩ := recovered_of_accepted firstDecides firstCarried firstPassed
  obtain ⟨other, alsoRecovered, alsoOwner⟩ :=
    recovered_of_accepted secondDecides secondCarried secondPassed
  have digests := assumed.recovery recovered alsoRecovered (by rw [owner, alsoOwner, sender])
  have preimages := assumed.collisionFree (by simp) (by simp) digests
  exact sameSigned_of_signingPreimage assumed.encoding (gasLimit_ne_zero firstPassed)
    (gasLimit_ne_zero secondPassed) (dataSize_le firstPassed) (dataSize_le secondPassed) preimages

/-- Two accepted transactions of one sender with one ECDSA signature are executed alike on one chain
exactly if they agree on what the signature does not cover. -/
theorem sameExecution_iff_of_signature (assumed : EcdsaAssumptions crypto first second signature)
    (firstAccepted : first.verifyTxStateless crypto firstChain firstEvm firstBlock = .ok ())
    (secondAccepted : second.verifyTxStateless crypto secondChain secondEvm secondBlock = .ok ())
    (firstCarried : first.ecdsaSignature = some signature)
    (secondCarried : second.ecdsaSignature = some signature)
    (sender : first.from = second.from) :
    firstChain = secondChain ∧ SameExecution first second ↔
      SameUncovered first second firstChain secondChain := by
  have firstPassed := passedStateless_of_verify firstAccepted
  have secondPassed := passedStateless_of_verify secondAccepted
  constructor
  · rintro ⟨chain, same⟩
    have price : first.gasPrice = second.gasPrice := by
      rw [gasPrice, gasPrice, same.fee, same.gasLimit]
    exact {
      fee := by rw [same.fee, same.gasLimit]
      sponsor := same.sponsor
      executeAtBlock := same.executeAtBlock
      executeAtTimestamp := same.executeAtTimestamp
      chain := fun _ => chain
      unchecked :=
        fun _ => ⟨⟨same.nonce, price, same.gasLimit, same.receiver, same.value, same.data⟩, chain⟩ }
  · intro uncovered
    have agreed : SameSigned first second ∧ firstChain = secondChain := by
      by_cases replaced : first.pqSignature ≠ none ∨ second.pqSignature ≠ none
      · exact uncovered.unchecked replaced
      · rw [not_or, not_not, not_not] at replaced
        obtain ⟨signed, chains⟩ := sameSigned_of_accepted assumed firstPassed secondPassed
          firstCarried secondCarried replaced.1 replaced.2 sender
        refine ⟨signed, ?_⟩
        cases firstNamed : first.chainId with
        | none => exact uncovered.chain (.inl firstNamed)
        | some firstId =>
          cases secondNamed : second.chainId with
          | none => exact uncovered.chain (.inr secondNamed)
          | some secondId =>
            simp only [signedChainId, firstNamed, secondNamed,
              Option.some_or, Option.some_inj] at chains
            rw [← chain_of_carried firstPassed firstNamed,
              ← chain_of_carried secondPassed secondNamed, chains]
    obtain ⟨signed, chain⟩ := agreed
    exact ⟨chain, signed.nonce, signed.receiver, signed.value, signed.data, signed.gasLimit,
      fee_eq_of_remainder signed uncovered.fee, uncovered.sponsor, uncovered.executeAtBlock,
      uncovered.executeAtTimestamp⟩

end Accepted

/-- The sample library with the encodings of `alloy_rlp`, where a signature recovers a key that
names the digest. -/
def namingCrypto : Crypto :=
  { Crypto.sample with
    rlp := Rlp.alloy
    secp256k1 :=
      { Crypto.sample.secp256k1 with
        recoverFromPrehash := fun digest _ _ => some (4 :: (Bytes.be digest ++ Bytes.be digest)) } }

def sampleSignature : EcdsaSignature where
  r := 1
  s := 1
  v := 27

/-- A transfer whose sender is the account of the key that the signature recovers. -/
def ecdsaTransfer (chainId : Option U64) : Transaction :=
  let tx : Transaction :=
    { Transaction.new namingCrypto 0 2 1000 21000 0 with
      chainId, ecdsaSignature := some sampleSignature }
  let digest := Bytes.be (tx.signedDigest namingCrypto sampleSignature)
  { tx with «from» := namingCrypto.deriveEthAddress (digest ++ digest) }

/-- The transaction with the hash of its contents. -/
def hashed (tx : Transaction) : Transaction :=
  { tx with hash := tx.calculateHash namingCrypto }

/-- With one signed message nothing is left to assume. -/
theorem ecdsaAssumptions_of_uncovered (tx : Transaction) (maxFeePerGas : Option U128)
    (sponsor : Option Address) :
    EcdsaAssumptions namingCrypto (hashed tx)
      (hashed { tx with maxFeePerGas, sponsor }) sampleSignature := by
  have signed : SameSigned (hashed tx) (hashed { tx with maxFeePerGas, sponsor }) := by
    constructor <;> simp only [hashed, gasPrice]
  have chain : (hashed tx).signedChainId sampleSignature =
      (hashed { tx with maxFeePerGas, sponsor }).signedChainId sampleSignature := by
    simp only [hashed, signedChainId]
  have same :=
    (signed.signingPreimage namingCrypto ((hashed tx).signedChainId sampleSignature)).trans
    (congrArg _ chain)
  refine ⟨rfl, ?_, fun _ _ _ => congrArg namingCrypto.keccak256 same⟩
  rw [same, Set.pair_eq_singleton]
  exact Set.injOn_singleton _ _

def cappedTransfer : Transaction :=
  { ecdsaTransfer (some 11567) with maxFeePerGas := some 5, sponsor := none }

def sponsoredTransfer : Transaction :=
  { ecdsaTransfer (some 11567) with maxFeePerGas := none, sponsor := some 9 }

/-- A cap on the price of gas is not executed. -/
theorem cappedTransfer_sameExecution : hashed (ecdsaTransfer (some 11567)) ≠ hashed cappedTransfer ∧
      ((11567 : U64) = 11567 ∧
        SameExecution (hashed (ecdsaTransfer (some 11567))) (hashed cappedTransfer) ↔
        SameUncovered (hashed (ecdsaTransfer (some 11567))) (hashed cappedTransfer) 11567 11567) :=
  ⟨by decide +kernel, @sameExecution_iff_of_signature namingCrypto _ _ sampleSignature 11567 11567
    false false 1 1
    (ecdsaAssumptions_of_uncovered _ _ _) (by decide +kernel) (by decide +kernel) rfl rfl rfl⟩

/-- Without a chain id a transfer is accepted on any chain, and with one it is accepted with and
without a sponsor. -/
theorem signature_accepted_elsewhere :
    (EcdsaAssumptions namingCrypto (hashed (ecdsaTransfer none)) (hashed (ecdsaTransfer none))
      sampleSignature ∧
      (hashed (ecdsaTransfer none)).verifyTxStateless namingCrypto 11567 false 1 = .ok () ∧
      (hashed (ecdsaTransfer none)).verifyTxStateless namingCrypto 1 false 1 = .ok () ∧
        (11567 : U64) ≠ 1) ∧
    EcdsaAssumptions namingCrypto (hashed (ecdsaTransfer (some 11567)))
      (hashed sponsoredTransfer) sampleSignature ∧
      (hashed (ecdsaTransfer (some 11567))).verifyTxStateless namingCrypto 11567 false 1 = .ok () ∧
      (hashed sponsoredTransfer).verifyTxStateless namingCrypto 11567 false 1 = .ok () ∧
      ¬SameExecution (hashed (ecdsaTransfer (some 11567))) (hashed sponsoredTransfer) := by
  refine ⟨⟨ecdsaAssumptions_of_uncovered (ecdsaTransfer none) none none, by decide +kernel,
      by decide +kernel, by decide⟩,
    ecdsaAssumptions_of_uncovered _ _ _, by decide +kernel, by decide +kernel, fun same => ?_⟩
  cases same.sponsor

end Transaction

end IronDag
