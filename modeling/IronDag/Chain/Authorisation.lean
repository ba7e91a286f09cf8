import IronDag.Chain.SenderBinding
import IronDag.Chain.Trail

namespace IronDag

open Check Transaction

namespace Transaction

variable {tx : Transaction}

/-- An Ed25519 signature over the transaction hash, under a key whose address is the signer. -/
structure EntryValid (crypto : Crypto) (tx : Transaction) (entry : MultisigEntry) : Prop where
  signatureLength : entry.signature.length = 64
  keyLength : entry.publicKey.length = 32
  key : crypto.ed25519.verifyingKey entry.publicKey = true
  signature : crypto.ed25519.signature entry.signature = true
  verified : crypto.ed25519.verify entry.publicKey tx.hash entry.signature = true
  derived : crypto.deriveEthAddress entry.publicKey = entry.signer

/-- Distinct members of `signers`, at least `threshold` many, have each supplied a valid entry. -/
def SignedByThreshold (crypto : Crypto) (tx : Transaction) (entries : List MultisigEntry)
    (signers : List Address) (threshold : Byte) : Prop :=
  ∃ members : List Address, members.Nodup ∧ threshold.toNat ≤ members.length ∧
    ∀ member ∈ members, member ∈ signers ∧ ∃ entry ∈ entries, entry.signer = member ∧
      tx.EntryValid crypto entry

theorem checkEntry_eq_ok : tx.checkEntry crypto entry = .ok () ↔ tx.EntryValid crypto entry := by
  simp only [checkEntry, bind_eq_ok, require_eq_ok, decide_eq_true_eq]
  constructor
  · rintro ⟨signatureLength, keyLength, key, signature, verified, derived⟩
    exact ⟨signatureLength, keyLength, key, signature, verified, derived⟩
  · intro valid
    exact ⟨valid.signatureLength, valid.keyLength, valid.key, valid.signature,
      valid.verified, valid.derived⟩

theorem checkDistinct_eq_ok :
    checkDistinct seen signers = .ok () ↔ signers.Nodup ∧ ∀ signer ∈ signers, signer ∉ seen := by
  induction signers generalizing seen with
  | nil => simp [checkDistinct]
  | cons signer rest ih =>
    rw [checkDistinct, bind_eq_ok, require_eq_ok, ih, decide_eq_true_eq,
      List.nodup_cons, List.forall_mem_cons]
    constructor
    · rintro ⟨fresh, distinct, apart⟩
      refine ⟨⟨fun again => apart signer again List.mem_cons_self, distinct⟩, fresh, ?_⟩
      intro other member earlier
      exact apart other member (List.mem_cons_of_mem signer earlier)
    · rintro ⟨⟨once, distinct⟩, fresh, apart⟩
      refine ⟨fresh, distinct, ?_⟩
      intro other member earlier
      rcases List.mem_cons.mp earlier with rfl | before
      · exact once member
      · exact apart other member before

theorem countValid_eq_ok : tx.countValid crypto entries = .ok count ↔
      count = entries.length ∧ ∀ entry ∈ entries, tx.EntryValid crypto entry := by
  induction entries generalizing count with
  | nil => simp [countValid, eq_comm]
  | cons entry rest ih =>
    rw [countValid, bind_eq_ok, checkEntry_eq_ok, List.forall_mem_cons]
    cases counted : tx.countValid crypto rest with
    | ok others =>
      obtain ⟨rfl, valid⟩ := ih.mp counted
      simp only [bind, Except.bind, Except.ok.injEq]
      constructor
      · rintro ⟨first, rfl⟩
        exact ⟨rfl, first, valid⟩
      · rintro ⟨rfl, first, -⟩
        exact ⟨first, rfl⟩
    | error fault =>
      have invalid : ¬∀ entry ∈ rest, tx.EntryValid crypto entry := fun valid => by
        cases counted.symm.trans (ih.mpr ⟨rfl, valid⟩)
      simp [bind, Except.bind, invalid]

theorem checkSigners_eq_ok : tx.checkSigners crypto entries signers threshold = .ok () ↔
      threshold.toNat ≤ entries.length ∧ (∀ entry ∈ entries, entry.signer ∈ signers) ∧
        (entries.map MultisigEntry.signer).Nodup ∧
          ∀ entry ∈ entries, tx.EntryValid crypto entry := by
  simp only [checkSigners, bind_eq_ok, forM_eq_ok, require_eq_ok,
    decide_eq_true_eq, checkDistinct_eq_ok]
  refine and_congr_right fun enough => and_congr_right fun _ => ?_
  cases counted : tx.countValid crypto entries with
  | ok count =>
    obtain ⟨rfl, valid⟩ := countValid_eq_ok.mp counted
    simpa [bind, Except.bind, enough] using fun _ => valid
  | error fault =>
    have invalid : ¬∀ entry ∈ entries, tx.EntryValid crypto entry := fun valid => by
      cases counted.symm.trans (countValid_eq_ok.mpr ⟨rfl, valid⟩)
    simp [bind, Except.bind, invalid]

theorem signedByThreshold_of_checkSigners
    (checked : tx.checkSigners crypto entries signers threshold = .ok ()) :
    tx.SignedByThreshold crypto entries signers threshold := by
  obtain ⟨enough, known, distinct, valid⟩ := checkSigners_eq_ok.mp checked
  refine ⟨entries.map MultisigEntry.signer, distinct, by simpa using enough, ?_⟩
  intro member signed
  obtain ⟨entry, carried, rfl⟩ := List.mem_map.mp signed
  exact ⟨known entry carried, entry, carried, rfl, valid entry carried⟩

end Transaction

namespace Ledger

variable {ledger : Ledger}

/-- A signature check has succeeded for the sender: of the threshold of its wallet for a transaction
with several signatures, of its own signature otherwise. -/
def Authorises (ledger : Ledger) (crypto : Crypto) (tx : Transaction) (blockHeight : U64) : Prop :=
  match tx.multisigSignatures with
  | some entries =>
    ∃ signers threshold, ledger.signerPolicy tx.from = some (some (signers, threshold)) ∧
      tx.SignedByThreshold crypto entries signers threshold
  | none => tx.SystemAtGenesis blockHeight ∨ tx.SignedBySender crypto

theorem policy_of_checkMultisig
    (configured : ledger.walletRegistry.isSome = true) (readable : encounter.signersReadable = true)
    (checked : ledger.checkMultisig encounter tx crypto entries = .ok ()) :
    ∃ signers threshold, ledger.signerPolicy tx.from = some (some (signers, threshold)) ∧
      tx.SignedByThreshold crypto entries signers threshold := by
  obtain ⟨registry, present⟩ := Option.isSome_iff_exists.mp configured
  unfold checkMultisig registryIf at checked
  rw [if_pos readable, present] at checked
  unfold signerPolicy
  rw [present, Option.bind_some]
  cases found : registry.lookup tx.from with
  | none =>
    simp only [found] at checked
    cases checked
  | some wallet =>
    simp only [found] at checked
    cases policy : wallet.signerPolicy with
    | none =>
      simp only [policy] at checked
      cases checked
    | some pair =>
      obtain ⟨signers, threshold⟩ := pair
      simp only [policy] at checked
      refine ⟨signers, threshold, ?_, signedByThreshold_of_checkSigners checked⟩
      rw [Option.map_some, policy]

theorem checkAuthorisation_of_validateInBlock (plain : privacyDataOf tx host = none)
    (several : tx.multisigSignatures.isSome = true)
    (valid : ledger.validateInBlock host encounter block tx = .ok ()) :
    ledger.checkAuthorisation encounter tx host block.header.blockNumber = .ok () := by
  unfold validateInBlock at valid
  rw [bind_eq_ok, bind_eq_ok, if_pos (by simp [isSpecial, several])] at valid
  obtain ⟨-, -, valid⟩ := valid
  exact (passedWhole_of_validate plain valid).authorisation

/-- Processing the transaction lowers the balance of an address. In an execution that is the fee:
what contracts do with their funds is up to the interpreter. -/
inductive Turn.TakesFrom (host : Host) (turn : Turn) (address : Address) : Prop where
  | transfer (plain : privacyDataOf turn.tx host = none)
      (native : turn.ledger.executorFor turn.tx = none)
      (charged : Ledger) (done : turn.ledger.charge turn.tx = .ok charged)
      (lower : charged.getBalance address < turn.ledger.getBalance address)
  | execution (plain : privacyDataOf turn.tx host = none) (executor : EvmExecutor)
      (enabled : turn.ledger.executorFor turn.tx = some executor) (executed charged : Ledger)
      (execution : EvmExecutor.Execution)
      (ran : turn.ledger.execute host turn.encounter executor turn.tx = .ok (executed, execution))
      (done : executed.chargeExecution turn.tx = .ok charged)
      (lower : charged.getBalance address < executed.getBalance address)

theorem Turn.TakesFrom.plain {turn : Turn} (taken : turn.TakesFrom host address) :
    privacyDataOf turn.tx host = none := by
  cases taken with
  | transfer plain | execution plain => exact plain

theorem Turn.TakesFrom.payer {turn : Turn} (taken : turn.TakesFrom host address) :
    address = turn.tx.from ∨ turn.tx.sponsor = some address := by
  by_contra neither
  rw [not_or] at neither
  cases taken with
  | transfer _ _ charged done lower =>
    rw [getBalance_charge_other done neither.1, if_neg neither.2, sub_zero] at lower
    exact absurd lower (BitVec.lt_irrefl _)
  | execution _ _ _ executed charged _ _ done lower =>
    unfold chargeExecution at done
    split at done
    · obtain ⟨-, done⟩ := bind_eq_ok.mp done
      cases done
      rw [getBalance_writeBalance, if_neg neither.1] at lower
      exact absurd lower (BitVec.lt_irrefl _)
    · cases done
      exact absurd lower (BitVec.lt_irrefl _)

/-- The signatures of a block can be checked, and only senders pay: for transactions with several
signatures there is a registry that can be read and no privacy data; a post-quantum key is the
sender's; a sponsor is the sender. -/
structure Checkable (host : Host) (encounters : Nat → Encounter) (block : Block) (ledger : Ledger) :
    Prop where
  several : ∀ index tx, block.transactions[index]? = some tx → tx.multisigSignatures.isSome = true →
    ledger.walletRegistry.isSome = true ∧ (encounters index).signersReadable = true ∧
      privacyDataOf tx host = none
  postQuantum : ∀ tx ∈ block.transactions, tx.multisigSignatures = none →
    tx.PqKeyOfSender host.crypto
  sponsor : ∀ tx ∈ block.transactions, ∀ sponsor, tx.sponsor = some sponsor → sponsor = tx.from

/-- Every transaction with several signatures is authorised by its wallet, and whatever a
transaction takes, it takes from a sender that authorised it. -/
structure Authorised (host : Host) (encounters : Nat → Encounter) (block : Block)
    (ledger : Ledger) : Prop where
  several : ∀ tx ∈ block.transactions, ∀ entries, tx.multisigSignatures = some entries →
    ∃ signers threshold, ledger.signerPolicy tx.from = some (some (signers, threshold)) ∧
      tx.SignedByThreshold host.crypto entries signers threshold
  funds : ∀ turn ∈ trail host block encounters block.transactions ledger, ∀ address,
    turn.TakesFrom host address →
    address = turn.tx.from ∧ ledger.Authorises host.crypto turn.tx block.header.blockNumber

theorem authorises_of_turn (checkable : Checkable host encounters block ledger)
    (passed : ledger.prePass host block = .ok ())
    (applied : applyTransactions host block encounters block.transactions ledger = .ok () after)
    (member : turn ∈ trail host block encounters block.transactions ledger)
    (plain : privacyDataOf turn.tx host = none) :
    ledger.Authorises host.crypto turn.tx block.header.blockNumber := by
  have frame := frame_of_mem_trail member
  obtain ⟨valid, -⟩ := turn_of_applyTransactions applied member
  obtain ⟨index, found, met⟩ := exists_encounter_of_mem_trail member
  have carried : turn.tx ∈ block.transactions := List.mem_of_getElem? found
  unfold Authorises
  rw [← frame.signerPolicy]
  cases signatures : turn.tx.multisigSignatures with
  | some entries =>
    obtain ⟨configured, readable, -⟩ :=
      checkable.several index turn.tx found (by rw [signatures]; rfl)
    have checked := checkAuthorisation_of_validateInBlock plain (by rw [signatures]; rfl) valid
    unfold checkAuthorisation at checked
    rw [signatures] at checked
    exact policy_of_checkMultisig (frame.walletRegistry.trans configured)
      (by rw [met]; exact readable) checked
  | none =>
    have checked := forM_eq_ok.mp passed turn.tx (by simp [carried, isSpecial, signatures, plain])
    exact sender_bound_of_accepted host.crypto (checkable.postQuantum turn.tx carried signatures)
      (verifySignature_of_checkSignature (passedStateless_of_verify checked).signature)

/-- A block that is processed is authorised, if its signatures can be checked. -/
theorem authorised_of_processed (checkable : Checkable host encounters block ledger)
    (processed : validateAndProcessTransactions host encounters block ledger = .ok () after) :
    Authorised host encounters block ledger := by
  obtain ⟨passed, applied, done, -⟩ := validateAndProcessTransactions_eq_ok.mp processed
  refine ⟨?_, ?_⟩
  · intro tx member entries signatures
    have turns := trail_map_tx host block encounters block.transactions ledger
    rw [← turns] at member
    obtain ⟨turn, inTrail, rfl⟩ := List.mem_map.mp member
    obtain ⟨index, found, -⟩ := exists_encounter_of_mem_trail inTrail
    obtain ⟨-, -, plain⟩ := checkable.several index turn.tx found (by rw [signatures]; rfl)
    have authorised := authorises_of_turn checkable passed done inTrail plain
    unfold Authorises at authorised
    rw [signatures] at authorised
    exact authorised
  · intro turn member address taken
    obtain ⟨index, found, -⟩ := exists_encounter_of_mem_trail member
    refine ⟨?_, authorises_of_turn checkable passed done member taken.plain⟩
    rcases taken.payer with sender | sponsored
    · exact sender
    · exact checkable.sponsor turn.tx (List.mem_of_getElem? found) address sponsored

end Ledger

end IronDag
