import IronDag.Chain.Transaction

namespace IronDag.Transaction

variable (crypto : Crypto)

/-- A transaction of the zero address that carries no signature of any scheme, at genesis. -/
structure SystemAtGenesis (tx : Transaction) (blockHeight : U64) : Prop where
  zeroSender : tx.from = Address.zero
  noPostQuantum : tx.pqSignature = none
  noEcdsa : tx.ecdsaSignature = none
  noEd25519 : tx.isUnsigned = true
  genesis : blockHeight = 0

/-- The signature that decides the transaction verifies under a key whose address, by the rule
of that signature's scheme, is the sender. -/
inductive SignedBySender (tx : Transaction) : Prop where
  | postQuantum (signature : PqSignature) (carried : tx.pqSignature = some signature)
      (verified : PqAccount.verifySignature crypto tx.hash signature = true)
      (derived : PqAccount.deriveAddress crypto signature.publicKey signature.accountType = tx.from)
  | ecdsa (signature : EcdsaSignature) (key : Bytes) (noPostQuantum : tx.pqSignature = none)
      (carried : tx.ecdsaSignature = some signature)
      (recovered : tx.recoverEcdsaKey crypto signature = .ok (some key))
      (derived : crypto.deriveEthAddress key = tx.from)
  | ed25519 (noPostQuantum : tx.pqSignature = none) (noEcdsa : tx.ecdsaSignature = none)
      (verified : tx.verifyEd25519 crypto = true)
      (derived : crypto.deriveEthAddress tx.publicKey = tx.from)

/-- A carried post-quantum signature that verifies was made with a key of the sender. -/
def PqKeyOfSender (tx : Transaction) : Prop :=
  ∀ signature, tx.pqSignature = some signature →
    PqAccount.verifySignature crypto tx.hash signature = true →
    PqAccount.deriveAddress crypto signature.publicKey signature.accountType = tx.from

variable {tx : Transaction}

theorem verifyEcdsaSignature_accepts {signature : EcdsaSignature} :
    tx.verifyEcdsaSignature crypto signature = .ok true ↔
      ∃ key, tx.recoverEcdsaKey crypto signature = .ok (some key) ∧
        crypto.deriveEthAddress key = tx.from := by
  unfold verifyEcdsaSignature
  cases recovered : tx.recoverEcdsaKey crypto signature with
  | error fault => simp [bind, Except.bind]
  | ok key =>
    cases key with
    | none | some key => simp [bind, Except.bind]

/-- What an accepting call of `verify_signature` has established, scheme by scheme. -/
theorem verifySignature_accepts : tx.verifySignature crypto blockHeight = .ok true ↔
      (∃ signature, tx.pqSignature = some signature ∧
        PqAccount.verifySignature crypto tx.hash signature = true) ∨
      (∃ signature key, tx.pqSignature = none ∧ tx.ecdsaSignature = some signature ∧
        tx.recoverEcdsaKey crypto signature = .ok (some key) ∧
        crypto.deriveEthAddress key = tx.from) ∨
      tx.SystemAtGenesis blockHeight ∨
      (tx.pqSignature = none ∧ tx.ecdsaSignature = none ∧
        ¬(tx.from = Address.zero ∧ tx.isUnsigned = true) ∧ tx.verifyEd25519 crypto = true ∧
        crypto.deriveEthAddress tx.publicKey = tx.from) := by
  unfold verifySignature
  cases postQuantum : tx.pqSignature with
  | some signature =>
    have signed : ¬tx.SystemAtGenesis blockHeight := fun system => by
      simp [system.noPostQuantum] at postQuantum
    simp [signed]
  | none =>
    cases ecdsa : tx.ecdsaSignature with
    | some signature =>
      have signed : ¬tx.SystemAtGenesis blockHeight := fun system => by
        simp [system.noEcdsa] at ecdsa
      simp [signed, verifyEcdsaSignature_accepts]
    | none =>
      by_cases system : tx.from = Address.zero ∧ tx.isUnsigned = true
      · have atGenesis : tx.SystemAtGenesis blockHeight ↔ blockHeight = 0 :=
          ⟨fun found => found.genesis, fun genesis =>
            ⟨system.1, postQuantum, ecdsa, system.2, genesis⟩⟩
        rw [atGenesis]
        by_cases genesis : blockHeight = 0 <;> simp [system.1, system.2]
      · have signed : ¬tx.SystemAtGenesis blockHeight := fun found =>
          system ⟨found.zeroSender, found.noEd25519⟩
        simp [system, signed]

/-- An accepted signature binds the sender if a post-quantum key, where one decides, is the
sender's own. -/
theorem sender_bound_of_accepted (ofSender : tx.PqKeyOfSender crypto)
    (accepted : tx.verifySignature crypto blockHeight = .ok true) :
    tx.SystemAtGenesis blockHeight ∨ tx.SignedBySender crypto := by
  rcases (verifySignature_accepts crypto).mp accepted with ⟨signature, carried, verified⟩ |
    ⟨signature, key, absent, carried, recovered, derived⟩ | system | ⟨absent, noEcdsa, _,
      verified, derived⟩
  · exact .inr (.postQuantum signature carried verified (ofSender signature carried verified))
  · exact .inr (.ecdsa signature key absent carried recovered derived)
  · exact .inl system
  · exact .inr (.ed25519 absent noEcdsa verified derived)

/-- The sender is bound on every accepting path exactly when the post-quantum key, if one
decides the transaction, is the sender's own. -/
theorem verifySignature_binds_sender_iff (tx : Transaction) (blockHeight : U64) :
    (tx.verifySignature crypto blockHeight = .ok true →
      tx.SystemAtGenesis blockHeight ∨ tx.SignedBySender crypto) ↔ tx.PqKeyOfSender crypto := by
  constructor
  · intro binds signature carried verified
    rcases binds ((verifySignature_accepts crypto).mpr (.inl ⟨signature, carried, verified⟩)) with
      system | signed
    · simp [system.noPostQuantum] at carried
    · cases signed with
      | postQuantum found same _ derived =>
        rw [Option.some_inj.mp (carried.symm.trans same)]
        exact derived
      | ecdsa _ _ absent | ed25519 absent => simp [absent] at carried
  · intro ofSender accepted
    exact sender_bound_of_accepted crypto ofSender accepted

/-- A transfer out of account 1, signed with a post-quantum key that belongs to another account. -/
def strangerTransfer : Transaction :=
  let tx := Transaction.new Crypto.sample 1 2 1000 21000 0
  let key : Bytes := List.replicate 1952 7
  { tx with
    pqSignature :=
      some { accountType := .dilithium3, signature := key ++ Bytes.be tx.hash, publicKey := key }
    signature := [] }

theorem strangerTransfer_accepted_unbound :
    strangerTransfer.verifySignature Crypto.sample 1 = .ok true ∧
      ¬(strangerTransfer.SystemAtGenesis 1 ∨ strangerTransfer.SignedBySender Crypto.sample) := by
  have verified : PqAccount.verifySignature Crypto.sample strangerTransfer.hash
      ⟨.dilithium3, List.replicate 1952 7 ++ Bytes.be strangerTransfer.hash,
        List.replicate 1952 7⟩ = true := by
    decide +kernel
  have notOwn : PqAccount.deriveAddress Crypto.sample (List.replicate 1952 7) .dilithium3 ≠
      strangerTransfer.from := by
    decide +kernel
  refine ⟨congrArg Except.ok verified, ?_⟩
  rintro (system | signed)
  · exact absurd system.genesis (by decide)
  · cases signed with
    | postQuantum signature carried _ derived =>
      cases carried
      exact notOwn derived
    | ecdsa _ _ absent => cases absent
    | ed25519 absent => cases absent

end IronDag.Transaction
