import IronDag.Chain.Transaction

namespace IronDag

def privacyPoolAddress : Address := 2

structure PoolDeposit where
  commitment : Hash
  blockNumber : U64
  leafIndex : Nat
  deriving DecidableEq, Repr

structure PrivacyPool where
  deposits : List PoolDeposit
  commitmentSet : Finset Hash
  spentNullifiers : Finset Hash
  denomination : U128
  requireProof : Bool
  deriving DecidableEq

inductive PoolError where
  | nullifierAlreadySpent
  | proofRequired
  | proofVerificationFailed (reason : String)
  deriving DecidableEq, Repr

def PoolError.text : PoolError → String
  | nullifierAlreadySpent => "Nullifier has already been spent"
  | proofRequired => "Proof is required but none was supplied"
  | proofVerificationFailed reason => s!"Proof verification failed: {reason}"

namespace PrivacyPool

/-- The pool of a new chain: one coin at a time, without proofs. -/
def empty : PrivacyPool where
  deposits := []
  commitmentSet := ∅
  spentNullifiers := ∅
  denomination := 1000000000000000000
  requireProof := false

/-- Registers a commitment; a known one is rejected. -/
def deposit (pool : PrivacyPool) (commitment : Hash) (blockNumber : U64) : Option PrivacyPool :=
  if commitment ∈ pool.commitmentSet then
    none
  else
    some
      { pool with
        deposits := pool.deposits ++
          [{ commitment, blockNumber, leafIndex := pool.deposits.length }]
        commitmentSet := insert commitment pool.commitmentSet }

/-- Spends a nullifier. Where a proof is required every withdrawal fails, as there is no
verifier. -/
def withdraw (pool : PrivacyPool) (nullifier : Hash) (proof : Option Bytes) :
    Except PoolError (U128 × PrivacyPool) :=
  if nullifier ∈ pool.spentNullifiers then
    .error .nullifierAlreadySpent
  else if pool.requireProof then
    if proof.getD [] = [] then
      .error .proofRequired
    else
      .error (.proofVerificationFailed "Groth16 verifier not yet wired (enable privacy feature)")
  else
    .ok (pool.denomination, { pool with spentNullifiers := insert nullifier pool.spentNullifiers })

end PrivacyPool

/-- `ark_groth16`: parsing of proofs, with the parser's error, and verification against 32-byte
public inputs. -/
structure PrivacyProofs where
  deserializeProof : Bytes → Option String
  verifyWithInputs : Bytes → List Bytes → Bool

structure PrivacyManager where
  nullifiers : Finset Hash
  maxSize : Nat
  verifierLoaded : Bool
  deriving DecidableEq

namespace PrivacyManager

/-- A byte string cut or filled with zeros to 32 bytes. -/
def padded (bytes : Bytes) : Bytes :=
  bytes.take 32 ++ List.replicate (32 - bytes.length) 0

/-- The second public input, or the only one. -/
def extractNullifier (tx : PrivacyTransaction) : Option Hash :=
  match tx.publicInputs[if 2 ≤ tx.publicInputs.length then 1 else 0]? with
  | some [] => none
  | some bytes =>
    some (BitVec.ofNat 256 ((padded bytes).foldl (fun total byte => total * 256 + byte.toNat) 0))
  | none => none

def verifyProof (manager : PrivacyManager) (proofs : PrivacyProofs) (proof : Bytes)
    (inputs : List Bytes) : Bool :=
  manager.verifierLoaded && proofs.verifyWithInputs proof inputs

/-- A full set and a known nullifier are errors that the caller ignores. -/
def addNullifier (manager : PrivacyManager) (nullifier : Hash) : PrivacyManager :=
  if manager.maxSize ≤ manager.nullifiers.card then
    manager
  else
    { manager with nullifiers := insert nullifier manager.nullifiers }

end PrivacyManager

end IronDag
