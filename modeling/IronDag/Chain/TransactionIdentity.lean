import IronDag.Chain.Validate

namespace IronDag

open Bytes Crypto List

namespace Transaction

/-- The two transactions agree on what execution reads from them. -/
structure SameParameters (first second : Transaction) : Prop where
  sender : first.from = second.from
  receiver : first.to = second.to
  value : first.value = second.value
  fee : first.fee = second.fee
  nonce : first.nonce = second.nonce
  data : first.data = second.data
  gasLimit : first.gasLimit = second.gasLimit
  maxFeePerGas : first.maxFeePerGas = second.maxFeePerGas
  maxPriorityFeePerGas : first.maxPriorityFeePerGas = second.maxPriorityFeePerGas
  chainId : first.chainId = second.chainId
  executeAtBlock : first.executeAtBlock = second.executeAtBlock
  executeAtTimestamp : first.executeAtTimestamp = second.executeAtTimestamp
  sponsor : first.sponsor = second.sponsor

/-- The same optional fields are there in both transactions. -/
structure SameLayout (first second : Transaction) : Prop where
  maxFeePerGas : first.maxFeePerGas.isSome = second.maxFeePerGas.isSome
  maxPriorityFeePerGas : first.maxPriorityFeePerGas.isSome = second.maxPriorityFeePerGas.isSome
  chainId : first.chainId.isSome = second.chainId.isSome
  executeAtBlock : first.executeAtBlock.isSome = second.executeAtBlock.isSome
  executeAtTimestamp : first.executeAtTimestamp.isSome = second.executeAtTimestamp.isSome
  sponsor : first.sponsor.isSome = second.sponsor.isSome

theorem SameParameters.layout (same : SameParameters first second) : SameLayout first second where
  maxFeePerGas := congrArg Option.isSome same.maxFeePerGas
  maxPriorityFeePerGas := congrArg Option.isSome same.maxPriorityFeePerGas
  chainId := congrArg Option.isSome same.chainId
  executeAtBlock := congrArg Option.isSome same.executeAtBlock
  executeAtTimestamp := congrArg Option.isSome same.executeAtTimestamp
  sponsor := congrArg Option.isSome same.sponsor

/-- With one layout the optional fields are read off the end of the preimage, and the data remain
between parts of fixed width. -/
theorem sameParameters_of_hashPreimage (layout : SameLayout first second)
    (same : first.hashPreimage = second.hashPreimage) : SameParameters first second := by
  have word : Function.Injective (Bytes.le : U64 → Bytes) := le_injective (by decide)
  have amount : Function.Injective (Bytes.le : U128 → Bytes) := le_injective (by decide)
  have address : Function.Injective (Bytes.be : Address → Bytes) := be_injective (by decide)
  obtain ⟨same, sponsor⟩ := append_inj' same (length_optional length_be layout.sponsor)
  obtain ⟨same, timestamp⟩ := append_inj' same (length_optional length_le layout.executeAtTimestamp)
  obtain ⟨same, block⟩ := append_inj' same (length_optional length_le layout.executeAtBlock)
  obtain ⟨same, chainId⟩ := append_inj' same (length_optional length_le layout.chainId)
  obtain ⟨same, priority⟩ :=
    append_inj' same (length_optional length_le layout.maxPriorityFeePerGas)
  obtain ⟨same, maxFee⟩ := append_inj' same (length_optional length_le layout.maxFeePerGas)
  obtain ⟨same, gasLimit⟩ := append_inj' same (by simp)
  obtain ⟨same, data⟩ := append_inj same (by simp)
  obtain ⟨same, nonce⟩ := append_inj' same (by simp)
  obtain ⟨same, fee⟩ := append_inj' same (by simp)
  obtain ⟨same, value⟩ := append_inj' same (by simp)
  obtain ⟨sender, receiver⟩ := append_inj' same (by simp)
  exact {
    sender := address sender
    receiver := address receiver
    value := amount value
    fee := amount fee
    nonce := word nonce
    data := data
    gasLimit := word gasLimit
    maxFeePerGas := optional_inj amount layout.maxFeePerGas maxFee
    maxPriorityFeePerGas := optional_inj amount layout.maxPriorityFeePerGas priority
    chainId := optional_inj word layout.chainId chainId
    executeAtBlock := optional_inj word layout.executeAtBlock block
    executeAtTimestamp := optional_inj word layout.executeAtTimestamp timestamp
    sponsor := optional_inj address layout.sponsor sponsor }

/-- Two transactions with one hash have the same parameters exactly if the same optional fields are
there. -/
theorem sameParameters_iff_of_calculateHash {crypto : Crypto} {first second : Transaction}
    (collisionFree : Set.InjOn crypto.keccak256 {first.hashPreimage, second.hashPreimage})
    (sameHash : first.calculateHash crypto = second.calculateHash crypto) :
    SameParameters first second ↔ SameLayout first second := by
  constructor
  · intro same
    exact same.layout
  · intro layout
    have preimages := collisionFree (by simp) (by simp) sameHash
    exact sameParameters_of_hashPreimage layout preimages

/-- A signed transfer of the sample key that may be executed from block 1700000000 on. -/
def blockLocked : Transaction :=
  let tx : Transaction :=
    { Transaction.new sample sampleSender 2 1000 21000 0 with executeAtBlock := some 1700000000 }
  signSample { tx with hash := tx.calculateHash sample }

/-- The same transfer with the lock on the time of the block in the place of its number. -/
def timeLocked : Transaction :=
  { blockLocked with executeAtBlock := none, executeAtTimestamp := some 1700000000 }

/-- The hash leaves the signature out. -/
def unsignedLock : Transaction :=
  { blockLocked with signature := [] }

theorem unsignedLock_sameParameters : blockLocked ≠ unsignedLock ∧
    (SameParameters blockLocked unsignedLock ↔ SameLayout blockLocked unsignedLock) := by
  have preimages : blockLocked.hashPreimage = unsignedLock.hashPreimage := rfl
  refine ⟨by decide +kernel, @sameParameters_iff_of_calculateHash sample _ _ ?_ rfl⟩
  rw [preimages, Set.pair_eq_singleton]
  exact Set.injOn_singleton _ _

/-- One signature is accepted for both locks. -/
theorem locks_share_hash_and_signature :
    Set.InjOn sample.keccak256 {blockLocked.hashPreimage, timeLocked.hashPreimage} ∧
      blockLocked.calculateHash sample = timeLocked.calculateHash sample ∧
      blockLocked.signature = timeLocked.signature ∧
      blockLocked.verifyTxStateless sample 11567 false 1 = .ok () ∧
      timeLocked.verifyTxStateless sample 11567 false 1 = .ok () ∧
      ¬SameParameters blockLocked timeLocked := by
  have preimages : blockLocked.hashPreimage = timeLocked.hashPreimage := by decide +kernel
  refine ⟨?_, congrArg sample.keccak256 preimages, rfl, by decide +kernel,
    by decide +kernel, fun same => ?_⟩
  · rw [preimages, Set.pair_eq_singleton]
    exact Set.injOn_singleton _ _
  · cases same.executeAtBlock

end Transaction

end IronDag
