import IronDag.Lib.Bytes
import IronDag.Lib.Word

/-! The machine words, identifiers and outside libraries of the node. -/

namespace IronDag

abbrev U64 := BitVec 64

abbrev U128 := BitVec 128

abbrev Address := BitVec 160

abbrev Hash := BitVec 256

instance : LawfulBEq Address := inferInstance

instance : LawfulBEq Hash := inferInstance

theorem Hash.toNat_injective : Function.Injective (@BitVec.toNat 256) := BitVec.toNat_injective

def Address.zero : Address := 0

/-- How a call can fail: by the error it returns, or by a panic. -/
inductive Fault (ε : Type) where
  | error (reason : ε)
  | panic
  deriving DecidableEq, Repr

inductive StreamType where
  | streamA
  | streamB
  | streamC
  deriving DecidableEq, Repr

def StreamType.toByte : StreamType → Byte
  | .streamA => 0
  | .streamB => 1
  | .streamC => 2

theorem StreamType.toByte_injective : Function.Injective StreamType.toByte := by
  intro left right same
  cases left <;> cases right <;> first | rfl | simp [toByte] at same

/-- `ed25519_dalek`: parsing of keys and signatures, and verification over a 32-byte message. -/
structure Ed25519 where
  verifyingKey : Bytes → Bool
  signature : Bytes → Bool
  verify : Bytes → Hash → Bytes → Bool

/-- A `pqcrypto` scheme whose signatures carry the message they sign. -/
structure SignedMessageScheme where
  publicKey : Bytes → Bool
  signedMessage : Bytes → Bool
  openMessage : Bytes → Bytes → Option Bytes

/-- `k256::ecdsa`: parsing, and recovery of the uncompressed public key of a prehash. -/
structure Secp256k1 where
  recoveryId : Byte → Bool
  signature : Bytes → Bool
  recoverFromPrehash : Hash → Bytes → Byte → Option Bytes

/-- `alloy_rlp`: the encodings of the integer types, of byte slices and of byte vectors. -/
structure Rlp where
  u8 : Byte → Bytes
  u64 : U64 → Bytes
  u128 : U128 → Bytes
  slice : Bytes → Bytes
  vec : Bytes → Bytes

/-- The cryptographic libraries the node is linked against. -/
structure Crypto where
  keccak256 : Bytes → Hash
  blake3 : Bytes → Hash
  ed25519 : Ed25519
  mldsa65 : SignedMessageScheme
  /-- Present in builds with the `sphincsplus` feature. -/
  sphincsPlus : Option SignedMessageScheme
  secp256k1 : Secp256k1
  rlp : Rlp

/-- The last 20 bytes of the Keccak-256 hash of a public key. -/
def Crypto.deriveEthAddress (crypto : Crypto) (publicKey : Bytes) : Address :=
  (crypto.keccak256 publicKey).setWidth 160

def checksum (seed : Nat) (bytes : Bytes) : Hash :=
  BitVec.ofNat 256 (bytes.foldl (fun total byte => total * 257 + byte.toNat + 1) seed)

def Crypto.sample : Crypto where
  keccak256 := checksum 1
  blake3 := checksum 2
  ed25519 :=
    { verifyingKey := fun key => decide (key.length = 32)
      signature := fun signature => decide (signature.length = 64)
      verify := fun key message signature => decide (signature = key ++ Bytes.be message) }
  mldsa65 :=
    { publicKey := fun key => decide (key.length = 1952)
      signedMessage := fun _ => true
      openMessage := fun signed key =>
        if signed.take key.length = key then some (signed.drop key.length) else none }
  sphincsPlus := none
  secp256k1 :=
    { recoveryId := fun identifier => decide (identifier < 4)
      signature := fun signature => decide (signature.length = 64)
      recoverFromPrehash := fun _ signature _ => some (4 :: signature) }
  rlp :=
    { u8 := fun byte => [byte]
      u64 := Bytes.be
      u128 := Bytes.be
      slice := id
      vec := id }

end IronDag
