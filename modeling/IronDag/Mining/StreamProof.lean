import IronDag.Chain.Blockchain
import IronDag.Mining.Trimming

namespace IronDag

open Blockchain

/-- `from_be_bytes_mod_order`, for the scalars of the curve. -/
def fieldElement (hash : Hash) : ℕ :=
  hash.toNat % 21888242871839275222246405745257275088548364400416034343698204186575808495617

/-- What a miner of stream C proves with. The balances and paths of the witness are read from the
chain. -/
structure ZkProver where
  stateRoot : VerkleState → Hash
  zkProvingKey : Option Bytes
  proveStateTransition : Bytes → Blockchain → List Transaction → List Hash → Except String Bytes

namespace ZkProver

variable (prover : ZkProver) (host : Host) (chain : Blockchain) (header : BlockHeader)
  (txs : List Transaction)

def preState : Hash :=
    (chain.verkleState.map prover.stateRoot).getD (host.crypto.keccak256 (Bytes.ofText "pre"))

def rootOf (txs : List Transaction) : Hash :=
  calculateTransactionsRoot host.crypto (txs.map fun tx => tx.hash)

/-- The state before, a commitment to it and to the transactions, and the root of the
transactions. -/
def publicInputs : List Hash :=
  [prover.preState host chain,
    host.crypto.keccak256 (Bytes.be (prover.preState host chain) ++ Bytes.be (rootOf host txs)),
      rootOf host txs]

def trimmed : List Transaction :=
  trimBlockTransactions
    (fun kept => (host.serializedSize (Block.new host.crypto header kept)).toOption) txs

/-- The block that is submitted for the drained transactions. The proof is about all of them, also
those that the block has no room for. -/
def mineStreamC : Block :=
  let header := { header with streamType := .streamC }
  { Block.new host.crypto header (trimmed host header txs) with
    zkProof :=
      if host.privacyBuild then prover.zkProvingKey.bind fun key =>
        (prover.proveStateTransition key chain txs (prover.publicInputs host chain txs)).toOption
      else none }

/-- A proof passes with the inputs it was made for. -/
def Complete : Prop :=
  ∀ provingKey ∈ prover.zkProvingKey, ∀ key ∈ chain.zkVerifyingKey, ∀ inputs proof same,
    prover.proveStateTransition provingKey chain txs inputs = .ok proof →
      same.map fieldElement = inputs.map fieldElement →
        host.verifyStateTransition key proof same = .ok true

/-- A proof that is attached is verified against the inputs it was made for, and accepted. -/
def Agrees : Prop :=
  let block := prover.mineStreamC host chain header txs
  ∀ proof, block.zkProof = some proof → ∃ key, chain.zkVerifyingKey = some key ∧
    (zkPublicInputs host.crypto block).map fieldElement =
      (prover.publicInputs host chain txs).map fieldElement ∧
    host.verifyStateTransition key proof (zkPublicInputs host.crypto block) = .ok true ∧
    chain.checkZkProof host block = .ok ()

/-- The two sides agree where no proof is made, and only there: the verifier takes the hash of a
word for the state after, which the miner commits to with the state before and the transactions. -/
theorem agrees_iff
    (distinct : Set.InjOn (fun message => fieldElement (host.crypto.keccak256 message))
      {Bytes.ofText "post", Bytes.be (prover.preState host chain) ++ Bytes.be (rootOf host txs)}) :
    prover.Agrees host chain header txs ↔
      (host.privacyBuild = true → ∀ key ∈ prover.zkProvingKey, ∀ proof,
        prover.proveStateTransition key chain txs (prover.publicInputs host chain txs) ≠
          .ok proof) := by
  have attached (proof : Bytes) : (prover.mineStreamC host chain header txs).zkProof = some proof ↔
      host.privacyBuild = true ∧ ∃ key ∈ prover.zkProvingKey,
        prover.proveStateTransition key chain txs
          (prover.publicInputs host chain txs) = .ok proof := by
    have made (result : Except String Bytes) : result.toOption = some proof ↔
        result = .ok proof := by
      cases result <;> simp [Except.toOption]
    simp only [mineStreamC, Option.ite_none_right_eq_some, Option.bind_eq_some_iff,
      made, Option.mem_def]
  constructor
  · intro agrees build key isKey proof proved
    obtain ⟨-, -, same, -⟩ := agrees proof ((attached proof).mpr ⟨build, key, isKey, proved⟩)
    simp only [zkPublicInputs, publicInputs, List.map_cons, List.cons.injEq] at same
    have messages := distinct (.inl rfl) (.inr rfl) same.2.1
    have lengths := congrArg List.length messages
    rw [List.length_append, Bytes.length_be, Bytes.length_be] at lengths
    exact absurd lengths (by decide)
  · intro never proof carried
    obtain ⟨build, key, isKey, proved⟩ := (attached proof).mp carried
    exact absurd proved (never build key isKey proof)

/-- A proof that spells out its inputs. -/
def spelled (inputs : List Hash) : Bytes :=
  (inputs.map fieldElement).flatMap fun value => Bytes.be (BitVec.ofNat 256 value)

def sample : ZkProver where
  stateRoot := fun _ => 0
  zkProvingKey := some []
  proveStateTransition := fun _ _ _ inputs => .ok (spelled inputs)

def sampleHost (crypto : Crypto) : Host :=
  { Host.sample with
    crypto
    privacyBuild := true
    verifyStateTransition := fun _ proof inputs => .ok (decide (proof = spelled inputs)) }

def sampleChain : Blockchain := { Blockchain.new with zkVerifyingKey := some [] }

def sampleHeader : BlockHeader where
  parentHashes := []
  blockNumber := 1
  streamType := .streamC
  difficulty := 4
  timestamp := 1600000000
  nonce := 0
  baseFeePerGas := 0
  hashVersion := 1

theorem complete_sample : sample.Complete (sampleHost crypto) sampleChain txs := by
  rintro _ - _ - inputs _ same ⟨⟩ equal
  simp [sampleHost, spelled, equal]

/-- The commitment to the state after is not the placeholder of the verifier. -/
theorem emptyBlock_disagrees : sample.Complete (sampleHost Crypto.sample) sampleChain [] ∧
    ¬sample.Agrees (sampleHost Crypto.sample) sampleChain sampleHeader [] := by
  refine ⟨complete_sample [], fun agrees => ?_⟩
  obtain ⟨-, -, same, -⟩ := agrees _ rfl
  exact absurd same (by decide +kernel)

/-- A miner without a proving key attaches no proof. -/
theorem keyless_agrees :
    { sample with zkProvingKey := none }.Agrees (sampleHost Crypto.sample) sampleChain sampleHeader
      [] := by
  have apart : fieldElement (Crypto.sample.keccak256 (Bytes.ofText "post")) ≠
      fieldElement (Crypto.sample.keccak256
      (Bytes.be (sample.preState (sampleHost Crypto.sample) sampleChain) ++
        Bytes.be (rootOf (sampleHost Crypto.sample) []))) := by decide +kernel
  refine (agrees_iff { sample with zkProvingKey := none } (sampleHost Crypto.sample) sampleChain
    sampleHeader [] ?_).mpr ?_
  · rintro _ (rfl | rfl) _ (rfl | rfl) same
    · rfl
    · exact absurd same apart
    · exact absurd same.symm apart
    · rfl
  · rintro - key ⟨⟩

end ZkProver

end IronDag
