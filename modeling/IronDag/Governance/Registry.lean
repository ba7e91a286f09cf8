import IronDag.Governance.Longevity
import IronDag.Network.PeerScore

/-! The registry of the nodes that vote by longevity. -/

namespace IronDag

open Bytes Finmap

structure HardwareFingerprint where
  cpuModel : Hash
  biosSerial : Hash
  macAddress : Hash
  systemUuid : Hash
  pufId : Option Hash
  fingerprint : Hash
  signature : Bytes
  deriving DecidableEq

structure ProofMetadata where
  timestamp : U64
  version : Byte
  algorithm : String
  deriving DecidableEq

structure ZkUniquenessProof where
  commitment : Hash
  zkProof : Bytes
  verificationKey : Bytes
  metadata : ProofMetadata
  deriving DecidableEq

structure NodeIdentity where
  publicKey : BitVec 256
  ipAddress : Option IpAddr
  hardwareFingerprint : HardwareFingerprint
  zkUniquenessProof : Option ZkUniquenessProof
  createdAt : U64
  deriving DecidableEq

def HardwareFingerprint.verify (crypto : Crypto) (hardware : HardwareFingerprint)
    (publicKey : BitVec 256) : Bool :=
  hardware.signature = be (crypto.keccak256 (be hardware.fingerprint ++ be publicKey))

/-- A placeholder that only looks at the length. -/
def ZkUniquenessProof.verify (proof : ZkUniquenessProof) : Bool :=
  !proof.zkProof.isEmpty && decide (64 ≤ proof.zkProof.length)

structure NodeRegistry where
  ipToNode : Table IpAddr NodeIdentity
  /-- The keys are the registered nodes. -/
  nodeStats : Table NodeIdentity NodeLongevity
  fingerprints : Finset Hash
  commitments : Finset Hash

namespace NodeRegistry

def new : NodeRegistry := ⟨∅, ∅, ∅, ∅⟩

variable (crypto : Crypto) (now : ℕ) (identity : NodeIdentity) (registry : NodeRegistry)

/-- The registry with the address of the node. -/
def enterAddress : NodeRegistry :=
  { registry with
    ipToNode := identity.ipAddress.elim registry.ipToNode (registry.ipToNode.insert · identity) }

/-- The address is entered before the checks are over. Only plain nodes leave their fingerprint, and
commitments are not compared. -/
def registerNode : Except String Unit × NodeRegistry :=
  if !identity.hardwareFingerprint.verify crypto identity.publicKey then
    (.error "Invalid hardware fingerprint signature", registry)
  else if identity.ipAddress.any (· ∈ registry.ipToNode) then
    (.error "IP address already registered", registry)
  else
    let entered := registry.enterAddress identity
    let fingerprint := identity.hardwareFingerprint.fingerprint
    let nodeStats := registry.nodeStats.insert identity (.new now)
    if fingerprint ∈ registry.fingerprints then
      (.error "Hardware fingerprint already registered", entered)
    else match identity.zkUniquenessProof with
      | some proof =>
        if !proof.verify then (.error "Invalid zero-knowledge uniqueness proof", entered)
        else
          let commitments := insert proof.commitment registry.commitments
          (.ok (), { entered with nodeStats, commitments })
      | none =>
        let fingerprints := insert fingerprint registry.fingerprints
        (.ok (), { entered with nodeStats, fingerprints })

/-- No two registered nodes have the field in common. -/
def Distinct (field : NodeIdentity → Option α) : Prop :=
  ∀ one ∈ registry.nodeStats, ∀ two ∈ registry.nodeStats, ∀ value ∈ field one,
    value ∈ field two → one = two

def commitmentOf (identity : NodeIdentity) : Option Hash :=
  identity.zkUniquenessProof.map ZkUniquenessProof.commitment

structure OneIdentity : Prop where
  fingerprints : registry.Distinct fun identity => some identity.hardwareFingerprint.fingerprint
  commitments : registry.Distinct commitmentOf
  addresses : registry.Distinct NodeIdentity.ipAddress
  recorded : ∀ ip node, registry.ipToNode.lookup ip = some node → node ∈ registry.nodeStats

/-- The signature is right, and the address is new. -/
def Admissible : Prop :=
  identity.hardwareFingerprint.verify crypto identity.publicKey = true ∧
    ∀ ip ∈ identity.ipAddress, ip ∉ registry.ipToNode

/-- The checks behind that of the address refuse the node. -/
def Refused : Prop :=
  identity.hardwareFingerprint.fingerprint ∈ registry.fingerprints ∨
    ∃ proof ∈ identity.zkUniquenessProof, proof.verify = false

/-- No other registered node has the fingerprint or the commitment. -/
def Apart : Prop :=
  ∀ other ∈ registry.nodeStats, other ≠ identity →
    other.hardwareFingerprint.fingerprint ≠ identity.hardwareFingerprint.fingerprint ∧
      ∀ commitment ∈ commitmentOf identity, commitment ∉ commitmentOf other

/-- A node that gets as far as the later checks comes without an address if they refuse it, and
shares nothing with another node otherwise. -/
def Sound : Prop :=
  registry.Admissible crypto identity →
    (registry.Refused identity → identity.ipAddress = none) ∧
      (¬registry.Refused identity → registry.Apart identity)

variable {crypto now identity registry}

/-- A node that passed the checks is entered. -/
structure Accepted (identity : NodeIdentity) (before after : NodeRegistry) : Prop where
  stats : ∀ node, node ∈ after.nodeStats ↔ node = identity ∨ node ∈ before.nodeStats
  entered : after.ipToNode = (before.enterAddress identity).ipToNode

/-- Besides, the addresses of the registered nodes are recorded. -/
structure Consistent (registry : NodeRegistry) : Prop extends OneIdentity registry where
  listed : ∀ node ∈ registry.nodeStats, ∀ ip ∈ node.ipAddress, ip ∈ registry.ipToNode

theorem Distinct.accept {field : NodeIdentity → Option α} (distinct : before.Distinct field)
    (accepted : Accepted identity before after)
    (apart : ∀ other ∈ before.nodeStats, other ≠ identity →
      ∀ value ∈ field identity, value ∉ field other) :
    after.Distinct field := by
  intro one first two second value here there
  rcases (accepted.stats one).mp first with rfl | first
  · rcases (accepted.stats two).mp second with rfl | second
    · rfl
    · by_contra different
      exact apart two second (Ne.symm different) value here there
  · rcases (accepted.stats two).mp second with rfl | second
    · by_contra different
      exact apart one first different value there here
    · exact distinct one first two second value here there

theorem Consistent.accept (consistent : before.Consistent)
    (accepted : Accepted identity before after) (apart : before.Apart identity)
    (free : ∀ ip ∈ identity.ipAddress, ip ∉ before.ipToNode) : after.Consistent where
  fingerprints := consistent.fingerprints.accept accepted
    fun other member different value here there =>
      (apart other member different).1 (Option.some.inj (there.trans here.symm))
  commitments := consistent.commitments.accept accepted fun other member different =>
    (apart other member different).2
  addresses := consistent.addresses.accept accepted fun other member _ ip here there =>
    free ip here (consistent.listed other member ip there)
  recorded := by
    intro ip node found
    rw [accepted.entered, enterAddress] at found
    rw [accepted.stats]
    cases address : identity.ipAddress with
    | none => exact .inr (consistent.recorded ip node (by simpa [address] using found))
    | some own =>
      simp only [address, Option.elim_some, Table.lookup_write] at found
      split_ifs at found
      · exact .inl (Option.some.inj found).symm
      · exact .inr (consistent.recorded ip node found)
  listed := by
    intro node member ip address
    rw [accepted.entered, enterAddress]
    rcases (accepted.stats node).mp member with rfl | old
    · simp [Option.mem_def.mp address]
    · have before := consistent.listed node old ip address
      cases identity.ipAddress with
      | none => exact before
      | some own => exact mem_insert.mpr (.inr before)

/-- A call at a time. -/
def register (crypto : Crypto) (call : ℕ × NodeIdentity) (registry : NodeRegistry) : NodeRegistry :=
  (registerNode crypto call.1 call.2 registry).2

end NodeRegistry

end IronDag
