import IronDag.Chain.Error
import IronDag.Chain.Transaction
import IronDag.Lib.Run
import Mathlib.Data.Finset.Card

/-! Multi-signature transactions of contract wallets: how signatures are collected and validated. -/

namespace IronDag

open List

structure MultiSigTransaction where
  walletAddress : Address
  transaction : Transaction
  signatures : List MultisigEntry
  threshold : Byte
  expectedSigners : List Address
  deriving DecidableEq, Repr

inductive MultiSigValidationResult where
  | valid
  | insufficientSignatures (required provided : Byte)
  | duplicateSigner (signer : Address)
  | unknownSigner (signer : Address)
  | invalidSignature (signer : Address)
  deriving DecidableEq, Repr

namespace MultiSigTransaction

def new (walletAddress : Address) (transaction : Transaction) (expectedSigners : List Address)
    (threshold : Byte) : Except String MultiSigTransaction :=
  if threshold = 0 then
    .error "Threshold cannot be zero"
  else if BitVec.ofNat 8 expectedSigners.length < threshold then
    .error "Threshold cannot exceed number of signers"
  else if expectedSigners = [] then
    .error "Expected signers list cannot be empty"
  else
    .ok { walletAddress, transaction, signatures := [], threshold, expectedSigners }

def addSignature (entry : MultisigEntry) (tx : MultiSigTransaction) :
    Except String MultiSigTransaction :=
  if entry.signer ∉ tx.expectedSigners then
    .error s!"Signer {hexEncode (Bytes.be entry.signer)} is not in expected signers list"
  else if tx.signatures.any (·.signer = entry.signer) then
    .error s!"Duplicate signature from signer {hexEncode (Bytes.be entry.signer)}"
  else
    .ok { tx with signatures := tx.signatures ++ [entry] }

/-- A refused signature leaves the transaction as it was. -/
def collect (entry : MultisigEntry) (tx : MultiSigTransaction) : MultiSigTransaction :=
  (tx.addSignature entry).toOption.getD tx

def verifyEd25519Signature (crypto : Crypto) (message : Hash) (signature publicKey : Bytes) :
    Bool :=
  decide (publicKey.length = 32) && crypto.ed25519.verifyingKey publicKey &&
    decide (signature.length = 64) && crypto.ed25519.verify publicKey message signature

/-- The first signer met a second time. -/
def repeatedSigner (seen : Finset Address) : List MultisigEntry → Option Address
  | [] => none
  | entry :: rest =>
    if entry.signer ∈ seen then some entry.signer
    else repeatedSigner (insert entry.signer seen) rest

/-- The key is checked against the signature, and not against the signer. -/
def validate (crypto : Crypto) (tx : MultiSigTransaction) : MultiSigValidationResult :=
  if tx.signatures.length < tx.threshold.toNat then
    .insufficientSignatures tx.threshold (BitVec.ofNat 8 tx.signatures.length)
  else
    match repeatedSigner ∅ tx.signatures with
    | some signer => .duplicateSigner signer
    | none =>
      match tx.signatures.find? (·.signer ∉ tx.expectedSigners) with
      | some entry => .unknownSigner entry.signer
      | none =>
        match tx.signatures.find? fun entry => entry.signature.isEmpty ||
            !verifyEd25519Signature crypto tx.transaction.hash entry.signature entry.publicKey with
        | some entry => .invalidSignature entry.signer
        | none => .valid

/-- At least `threshold` expected signers, and at least one, signed the transaction hash with a key
of their own. -/
def Approved (crypto : Crypto) (tx : MultiSigTransaction) : Prop :=
  1 ≤ tx.threshold.toNat ∧ ∃ signers : Finset Address, tx.threshold.toNat ≤ signers.card ∧
    ∀ signer ∈ signers, signer ∈ tx.expectedSigners ∧ ∃ entry ∈ tx.signatures,
      entry.signer = signer ∧ crypto.deriveEthAddress entry.publicKey = signer ∧
        verifyEd25519Signature crypto tx.transaction.hash entry.signature entry.publicKey = true

/-- The signatures whose keys derive to the signers they are stored for. -/
def ownSignatures (crypto : Crypto) (tx : MultiSigTransaction) : List MultisigEntry :=
  tx.signatures.filter fun entry => crypto.deriveEthAddress entry.publicKey = entry.signer

theorem repeatedSigner_eq_none (none : repeatedSigner seen entries = none) :
    (entries.map MultisigEntry.signer).Nodup ∧ ∀ entry ∈ entries, entry.signer ∉ seen := by
  induction entries generalizing seen with
  | nil => simp
  | cons entry rest ih =>
    rw [repeatedSigner] at none
    split at none
    · cases none
    · next fresh =>
      obtain ⟨distinct, others⟩ := ih none
      refine ⟨nodup_cons.mpr ⟨?_, distinct⟩, forall_mem_cons.mpr ⟨fresh, ?_⟩⟩
      · intro again
        obtain ⟨other, member, same⟩ := mem_map.mp again
        exact others other member (same ▸ Finset.mem_insert_self _ _)
      · exact fun other member earlier => others other member (Finset.mem_insert_of_mem earlier)

theorem validate_eq_valid {tx : MultiSigTransaction} (valid : tx.validate crypto = .valid) :
    tx.threshold.toNat ≤ tx.signatures.length ∧ (tx.signatures.map MultisigEntry.signer).Nodup ∧
      ∀ entry ∈ tx.signatures, entry.signer ∈ tx.expectedSigners ∧ verifyEd25519Signature crypto
        tx.transaction.hash entry.signature entry.publicKey = true := by
  unfold validate at valid
  split_ifs at valid with few
  split at valid
  · cases valid
  split at valid
  · cases valid
  split at valid
  · cases valid
  rename_i _ fresh _ known _ verified
  refine ⟨not_lt.mp few, (repeatedSigner_eq_none fresh).1, fun entry member => ?_⟩
  have expected := find?_eq_none.mp known entry member
  have signed := find?_eq_none.mp verified entry member
  simp only [Bool.or_eq_true, Bool.not_eq_true', not_or, Bool.not_eq_false] at signed
  exact ⟨by simpa using expected, signed.2⟩

theorem threshold_of_new {content : Transaction}
    (created : new wallet content signers required = .ok tx) : 1 ≤ tx.threshold.toNat := by
  unfold new at created
  split_ifs at created with zero
  cases created
  bv_omega

theorem threshold_collect (entry : MultisigEntry) (tx : MultiSigTransaction) :
    (tx.collect entry).threshold = tx.threshold := by
  unfold collect addSignature
  split_ifs <;> rfl

theorem threshold_run (entries : List MultisigEntry) (start : MultiSigTransaction) :
    (Run.run collect start entries).threshold = start.threshold := by
  induction entries generalizing start with
  | nil => rfl
  | cons entry rest ih => rw [Run.run_cons, ih, threshold_collect]

/-- A valid transaction is approved exactly if enough of its signatures were made with the keys of
their signers. -/
theorem approved_iff_of_valid (crypto : Crypto) {content : Transaction}
    (created : new wallet content signers required = .ok start) (entries : List MultisigEntry)
    (valid : (Run.run collect start entries).validate crypto = .valid) :
    (Run.run collect start entries).Approved crypto ↔
      (Run.run collect start entries).threshold.toNat ≤
        ((Run.run collect start entries).ownSignatures crypto).length := by
  have positive : 1 ≤ (Run.run collect start entries).threshold.toNat := by
    rw [threshold_run]
    exact threshold_of_new created
  generalize Run.run collect start entries = tx at valid positive ⊢
  obtain ⟨-, distinct, checked⟩ := validate_eq_valid valid
  have once : ((tx.ownSignatures crypto).map MultisigEntry.signer).Nodup :=
    distinct.sublist (filter_sublist.map _)
  rw [← length_map MultisigEntry.signer, ← toFinset_card_of_nodup once]
  constructor
  · rintro ⟨-, approving, enough, signed⟩
    refine enough.trans (Finset.card_le_card fun signer member => ?_)
    obtain ⟨-, entry, stored, rfl, own, -⟩ := signed signer member
    exact mem_toFinset.mpr (mem_map.mpr ⟨entry, mem_filter.mpr ⟨stored, by simpa using own⟩, rfl⟩)
  · intro enough
    refine ⟨positive, _, enough, fun signer member => ?_⟩
    obtain ⟨entry, listed, rfl⟩ := mem_map.mp (mem_toFinset.mp member)
    obtain ⟨stored, own⟩ := mem_filter.mp listed
    exact ⟨(checked entry stored).1, entry, stored, rfl, by simpa using own,
      (checked entry stored).2⟩

/-- A wallet of one signer, and a signature of the sample key given for that signer. -/
def walletOf (signer : Address) : MultiSigTransaction where
  walletAddress := 9
  transaction := Transaction.new Crypto.sample 9 8 1 0 0
  signatures := []
  threshold := 1
  expectedSigners := [signer]

def sampleEntry (signer : Address) : MultisigEntry where
  signer := signer
  signature := Transaction.sampleKey ++ Bytes.be (walletOf signer).transaction.hash
  publicKey := Transaction.sampleKey

theorem ownKey_approved :
    (Run.run collect (walletOf Transaction.sampleSender)
      [sampleEntry Transaction.sampleSender]).Approved Crypto.sample :=
  (@approved_iff_of_valid 9 [Transaction.sampleSender] 1 _ Crypto.sample
    (Transaction.new Crypto.sample 9 8 1 0 0) rfl _ (by decide +kernel)).mpr (by decide +kernel)

/-- Anyone's key stands in for the expected signer. -/
theorem foreignKey_valid :
    (Run.run collect (walletOf 1) [sampleEntry 1]).validate Crypto.sample = .valid ∧
      ¬(Run.run collect (walletOf 1) [sampleEntry 1]).Approved Crypto.sample := by
  refine ⟨by decide +kernel, fun approved => ?_⟩
  obtain ⟨-, signers, enough, signed⟩ := approved
  obtain ⟨signer, member⟩ := Finset.card_pos.mp enough
  obtain ⟨-, entry, stored, named, own, -⟩ := signed signer member
  have only : (Run.run collect (walletOf 1) [sampleEntry 1]).signatures = [sampleEntry 1] := by
    decide +kernel
  rw [only, mem_singleton] at stored
  subst named stored
  exact absurd own (by decide +kernel)

end MultiSigTransaction

end IronDag
