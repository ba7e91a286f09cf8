import IronDag.Chain.EcdsaScope

namespace IronDag.Transaction

open Crypto

variable (crypto : Crypto) (tx : Transaction) (sig : EcdsaSignature)

/-- The key recovered from a signature over the hash that `hashed` gives for the chain id in it. -/
def recoverKeyOver (hashed : Option U64 → Except (Fault String) Hash) :
    Except (Fault String) (Option Bytes) :=
  let (extracted, recoveryId) := sig.recovery
  if !crypto.secp256k1.recoveryId recoveryId then
    .ok none
  else do
    let messageHash ← hashed extracted
    if !crypto.secp256k1.signature sig.bytes then
      .ok none
    else
      match crypto.secp256k1.recoverFromPrehash messageHash sig.bytes recoveryId with
      | some point =>
        .ok (if point.length = 65 ∧ point.head? = some 4 then some point.tail else none)
      | none => .ok none

theorem recoverEcdsaKey_eq :
    tx.recoverEcdsaKey crypto sig = recoverKeyOver crypto sig (tx.ecdsaMessageHash crypto) := rfl

/-- The hash that `recover_ecdsa_address` recovers over. Without a chain id it is the hash of the
transaction, where `verify_ecdsa_signature` rebuilds the legacy message. -/
def recoveryMessageHash (extracted : Option U64) : Except (Fault String) Hash :=
  match tx.chainId.or extracted with
  | some _ => tx.ecdsaMessageHash crypto extracted
  | none => .ok tx.hash

def recoverEcdsaAddress : Except (Fault String) (Option Address) := do
  let key ← recoverKeyOver crypto sig (tx.recoveryMessageHash crypto)
  .ok (key.map crypto.deriveEthAddress)

/-- The fee is divided by a gas limit of zero: the recovery id is one of the library's, there is a
chain id, and nothing has looked at the gas limit yet. -/
structure DividesByZero : Prop where
  recoveryId : crypto.secp256k1.recoveryId sig.recovery.2 = true
  chainId : (tx.chainId.or sig.recovery.1).isSome = true
  gasLimit : tx.gasLimit = 0

section Panics

variable {crypto tx sig}

theorem recoverKeyOver_panics {hashed : Option U64 → Except (Fault String) Hash}
    (divides : hashed sig.recovery.1 = .error .panic ↔
      (tx.chainId.or sig.recovery.1).isSome = true ∧ tx.gasLimit = 0) :
    recoverKeyOver crypto sig hashed = .error .panic ↔ tx.DividesByZero crypto sig := by
  have split : tx.DividesByZero crypto sig ↔
      crypto.secp256k1.recoveryId sig.recovery.2 = true ∧
        hashed sig.recovery.1 = .error .panic := by
    rw [divides]
    exact ⟨fun zero => ⟨zero.recoveryId, zero.chainId, zero.gasLimit⟩,
      fun ⟨known, named, zero⟩ => ⟨known, named, zero⟩⟩
  rw [split, recoverKeyOver]
  cases known : crypto.secp256k1.recoveryId sig.recovery.2 with
  | false => simp [known]
  | true =>
    cases hash : hashed sig.recovery.1 with
    | error fault => simp [known, hash, bind, Except.bind]
    | ok hash =>
      simp only [known, hash, bind, Except.bind, Bool.not_true, Bool.false_eq_true, if_false,
        reduceCtorEq, and_false, iff_false]
      split
      · simp
      · split <;> simp

theorem ecdsaMessageHash_panics : tx.ecdsaMessageHash crypto extracted = .error .panic ↔
    (tx.chainId.or extracted).isSome = true ∧ tx.gasLimit = 0 := by
  unfold ecdsaMessageHash
  cases tx.chainId.or extracted with
  | none => simp
  | some chainId => by_cases zero : tx.gasLimit = 0 <;> simp [zero]

theorem recoveryMessageHash_panics : tx.recoveryMessageHash crypto extracted = .error .panic ↔
    (tx.chainId.or extracted).isSome = true ∧ tx.gasLimit = 0 := by
  unfold recoveryMessageHash
  cases named : tx.chainId.or extracted with
  | none => simp
  | some chainId => rw [ecdsaMessageHash_panics, named]

theorem verifyEcdsaSignature_panics :
    tx.verifyEcdsaSignature crypto sig = .error .panic ↔ tx.DividesByZero crypto sig := by
  rw [← recoverKeyOver_panics ecdsaMessageHash_panics, ← recoverEcdsaKey_eq, verifyEcdsaSignature]
  cases tx.recoverEcdsaKey crypto sig with
  | error fault => simp [bind, Except.bind]
  | ok key => cases key <;> simp [bind, Except.bind]

theorem recoverEcdsaAddress_panics :
    tx.recoverEcdsaAddress crypto sig = .error .panic ↔ tx.DividesByZero crypto sig := by
  rw [← recoverKeyOver_panics recoveryMessageHash_panics, recoverEcdsaAddress]
  cases recoverKeyOver crypto sig (tx.recoveryMessageHash crypto) with
  | error fault | ok key => simp [bind, Except.bind]

/-- Only the ECDSA branch divides, and a post-quantum signature goes before it. -/
theorem verifySignature_panics : tx.verifySignature crypto blockHeight = .error .panic ↔
    tx.pqSignature = none ∧ ∃ own, tx.ecdsaSignature = some own ∧ tx.DividesByZero crypto own := by
  unfold verifySignature
  cases tx.pqSignature with
  | some signature => simp
  | none =>
    cases tx.ecdsaSignature with
    | some own => simp [verifyEcdsaSignature_panics]
    | none =>
      simp only [reduceCtorEq, false_and, exists_false, and_false, iff_false]
      split
      · split <;> simp
      · simp

/-- A check that cannot panic leaves it to the rest. -/
theorem check_bind_panics {check : Except ChainFault Unit} {next : Unit → Except ChainFault Unit}
    (total : ∀ done, next done ≠ .error .panic) : (check >>= next) = .error .panic ↔
      check = .error .panic := by
  cases check with
  | error fault => simp [bind, Except.bind]
  | ok done => simpa [bind, Except.bind] using total done

theorem require_ne_panic : require passed reason ≠ .error .panic := by
  cases passed <;> simp [require, invalidTransaction]

theorem checkSignature_panics :
    tx.checkSignature crypto currentBlock = .error .panic ↔
      tx.verifySignature crypto currentBlock = .error .panic := by
  unfold checkSignature
  split <;> simp_all [invalidTransaction, require_ne_panic]

theorem verifyTxStateless_panics {chainId : U64} :
    tx.verifyTxStateless crypto chainId evmEnabled currentBlock = .error .panic ↔
      tx.verifySignature crypto currentBlock = .error .panic := by
  have gas : tx.checkGasPositive ≠ .error .panic := by
    unfold checkGasPositive
    split <;> simp
  have named : tx.checkChainId chainId ≠ .error .panic := by
    unfold checkChainId
    split
    · simp
    · exact require_ne_panic
  have contract : tx.checkContractGas evmEnabled ≠ .error .panic := by
    unfold checkContractGas
    split <;> simp
  have rest : ∀ {check : Except ChainFault Unit} {next : Unit → Except ChainFault Unit},
      check ≠ .error .panic →
      (∀ done, next done ≠ .error .panic) → (check >>= next) ≠ .error .panic :=
    fun first total => mt (check_bind_panics total).mp first
  rw [← checkSignature_panics]
  refine check_bind_panics fun _ => ?_
  iterate 5 refine rest require_ne_panic fun _ => ?_
  exact rest gas fun _ => rest named fun _ => rest require_ne_panic fun _ => contract

/-- Signature checking panics exactly where it divides by a gas limit of zero, for the signature at
hand and, unless a post-quantum one goes before it, for the transaction's own. -/
theorem signatureChecks_never_panic_iff (tx : Transaction) (sig : EcdsaSignature)
    (chainId blockHeight : U64) (evmEnabled : Bool) :
    (tx.verifySignature crypto blockHeight ≠ .error .panic ∧
      tx.verifyEcdsaSignature crypto sig ≠ .error .panic ∧
        tx.recoverEcdsaAddress crypto sig ≠ .error .panic ∧
        tx.verifyTxStateless crypto chainId evmEnabled blockHeight ≠ .error .panic) ↔
      ¬tx.DividesByZero crypto sig ∧
        (tx.pqSignature = none → ∀ own, tx.ecdsaSignature = some own →
          ¬tx.DividesByZero crypto own) := by
  rw [Ne, Ne, Ne, Ne, verifyTxStateless_panics, verifySignature_panics, verifyEcdsaSignature_panics,
    recoverEcdsaAddress_panics]
  push Not
  tauto

end Panics

/-- A legacy-style `v` on a transaction with a chain id and no gas. -/
def gaslessTransfer : Transaction :=
  { Transaction.new Crypto.sample 1 2 1000 21000 0 with
    gasLimit := 0, chainId := some 11567, ecdsaSignature := some sampleSignature }

theorem gaslessTransfer_panics :
    ¬∀ (tx : Transaction) (sig : EcdsaSignature) (chainId blockHeight : U64) (evmEnabled : Bool),
      tx.verifySignature sample blockHeight ≠ .error .panic ∧
        tx.verifyEcdsaSignature sample sig ≠ .error .panic ∧
        tx.recoverEcdsaAddress sample sig ≠ .error .panic ∧
        tx.verifyTxStateless sample chainId evmEnabled blockHeight ≠ .error .panic :=
          fun never => by
  have divides : gaslessTransfer.DividesByZero sample sampleSignature := ⟨rfl, rfl, rfl⟩
  exact (never gaslessTransfer sampleSignature 11567 1 false).2.1
    (verifyEcdsaSignature_panics.mpr divides)

/-- `RecoveryId::try_from` knows the identifiers below four. -/
def KnownRecoveryIds : Prop :=
  ∀ identifier : Byte, crypto.secp256k1.recoveryId identifier = decide (identifier < 4)

theorem recoverEcdsaAddress_eq_some : tx.recoverEcdsaAddress crypto sig = .ok (some sender) ↔
    ∃ key, recoverKeyOver crypto sig (tx.recoveryMessageHash crypto) = .ok (some key) ∧
      crypto.deriveEthAddress key = sender := by
  unfold recoverEcdsaAddress
  cases recoverKeyOver crypto sig (tx.recoveryMessageHash crypto) with
  | error fault => simp [bind, Except.bind]
  | ok key => cases key <;> simp [bind, Except.bind]

theorem recoverKeyOver_of_named (named : (tx.chainId.or sig.recovery.1).isSome = true) :
    recoverKeyOver crypto sig (tx.recoveryMessageHash crypto) = tx.recoverEcdsaKey crypto sig := by
  obtain ⟨chainId, effective⟩ := Option.isSome_iff_exists.mp named
  have same : tx.recoveryMessageHash crypto sig.recovery.1 =
      tx.ecdsaMessageHash crypto sig.recovery.1 := by
    simp only [recoveryMessageHash, effective]
  simp only [recoverEcdsaKey_eq, recoverKeyOver, same]

/-- A digest whose address is `sender`, other than `avoided`. -/
def digestOf (sender : Address) (avoided : Hash) : Hash :=
  if sender.setWidth 256 = avoided then sender.setWidth 256 ^^^ (1#256 <<< 200)
  else sender.setWidth 256

theorem digestOf_ne : digestOf sender avoided ≠ avoided := by
  unfold digestOf
  split
  · next same =>
    intro equal
    have bit := congrArg (BitVec.getLsbD · 200) (equal.trans same.symm)
    simp at bit
  · next other => exact other

theorem setWidth_digestOf : (digestOf sender avoided).setWidth 160 = sender := by
  unfold digestOf
  split
  · simp
  · simp

/-- A library under which only the hash of the transaction recovers a key, that of the sender. -/
def recoveringHash : Crypto :=
  { sample with
    keccak256 := fun _ => digestOf tx.from tx.hash
    secp256k1 :=
      { sample.secp256k1 with
        recoverFromPrehash := fun digest _ _ =>
          if digest = tx.hash then some (4 :: List.replicate 64 0) else none } }

theorem recoveringHash_splits (unnamed : (tx.chainId.or sig.recovery.1).isSome = false)
    (known : sig.recovery.2 < 4#8) :
    tx.recoverEcdsaAddress (recoveringHash tx) sig = .ok (some tx.from) ∧
      tx.verifyEcdsaSignature (recoveringHash tx) sig = .ok false := by
  have none : tx.chainId.or sig.recovery.1 = none :=
    Option.isNone_iff_eq_none.mp (by simpa using unnamed)
  have parsed : sig.bytes.length = 64 := by simp [EcdsaSignature.bytes]
  constructor
  · refine (recoverEcdsaAddress_eq_some _ _ _).mpr ⟨List.replicate 64 0, ?_, setWidth_digestOf⟩
    simp [recoverKeyOver, recoveringHash, recoveryMessageHash, none, known, sample, parsed,
      bind, Except.bind]
  · simp [verifyEcdsaSignature, recoverEcdsaKey, recoveringHash, ecdsaMessageHash, none,
      sample, parsed, bind, Except.bind, digestOf_ne]

/-- Recovery agrees with verification exactly where a chain id is at hand, in the transaction or in
`v`, or the recovery id is none. -/
theorem recovery_agrees_iff (tx : Transaction) (sig : EcdsaSignature) :
    (∀ crypto, KnownRecoveryIds crypto →
        (tx.verifyEcdsaSignature crypto sig = .ok true ↔
          tx.recoverEcdsaAddress crypto sig = .ok (some tx.from))) ↔
      (tx.chainId.or sig.recovery.1).isSome = true ∨ 4 ≤ sig.recovery.2 := by
  constructor
  · intro agrees
    by_contra missing
    rw [not_or, Bool.not_eq_true, BitVec.not_le] at missing
    obtain ⟨recovered, rejected⟩ := recoveringHash_splits tx sig missing.1 missing.2
    have accepted := (agrees (recoveringHash tx) fun _ => rfl).mpr recovered
    rw [rejected] at accepted
    cases accepted
  · rintro (named | unknown) crypto ids
    · rw [verifyEcdsaSignature_accepts, recoverEcdsaAddress_eq_some,
        recoverKeyOver_of_named crypto tx sig named]
    · have none : ∀ hashed, recoverKeyOver crypto sig hashed = .ok none := fun hashed => by
        simp [recoverKeyOver, (ids _).trans (decide_eq_false (BitVec.not_lt.mpr unknown))]
      rw [verifyEcdsaSignature_accepts, recoverEcdsaAddress_eq_some, recoverEcdsaKey_eq, none, none]

/-- A legacy signature verifies and recovers another address. -/
theorem legacyTransfer_disagrees :
    ¬∀ (tx : Transaction) (sig : EcdsaSignature), 0 < tx.gasLimit →
      ∀ crypto, KnownRecoveryIds crypto →
      (tx.verifyEcdsaSignature crypto sig = .ok true ↔
        tx.recoverEcdsaAddress crypto sig = .ok (some tx.from)) :=
  fun agrees => by
    have recovered :=
      (agrees (ecdsaTransfer none) sampleSignature (by decide) namingCrypto fun _ => rfl).mp
      (by decide +kernel)
    exact absurd recovered (by decide +kernel)

end IronDag.Transaction
