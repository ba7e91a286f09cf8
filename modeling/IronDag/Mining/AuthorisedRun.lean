import IronDag.Chain.Authorisation
import IronDag.Mining.ProofOfWork

namespace IronDag

inductive Event where
  | call (step : Step)
  | other (change : Blockchain → Blockchain)

namespace Event

variable (host : Host) (chain : Blockchain)

def apply : Event → Blockchain → Blockchain
  | call step, chain => step.apply host chain
  | other change, chain => change chain

/-- A call about a new block whose signatures can be checked. -/
def Checkable : Event → Prop
  | call step =>
    step.call.block.hash ∉ chain.blocks.blockHashes ∧
      Ledger.Checkable host step.conditions.encounters step.call.block chain.toLedger
  | other _ => True

/-- A block that a call accepts is authorised. -/
def Authorised : Event → Prop
  | call step =>
    step.ReturnsOk host chain →
      Ledger.Authorised host step.conditions.encounters step.call.block chain.toLedger
  | other _ => True

variable {host chain}

theorem authorised_of_checkable {event : Event} (checkable : event.Checkable host chain) :
    event.Authorised host chain := by
  cases event with
  | call step =>
    intro accepted
    obtain ⟨ledger, processed⟩ := Step.processed_of_returnsOk checkable.1 accepted
    exact Ledger.authorised_of_processed checkable.2 processed
  | other change => trivial

/-- In a run whose blocks can all be checked, every accepted block is authorised in the state
that it met. -/
theorem authorised_of_run {host : Host} {start : Blockchain} {events : List Event}
    (checkable : ∀ entry ∈ Run.visited (apply host) start events, entry.2.Checkable host entry.1) :
    ∀ entry ∈ Run.visited (apply host) start events, entry.2.Authorised host entry.1 := by
  intro entry visited
  exact authorised_of_checkable (checkable entry visited)

end Event

namespace Blockchain

def walletKeys : List Bytes := [List.replicate 32 7, List.replicate 32 8]

def walletAddress : Address := 0x77

/-- Registers the wallet, which needs both keys, and funds it. -/
def openWallet (chain : Blockchain) : Blockchain :=
  { chain with
    walletRegistry := some ((∅ : WalletRegistry).insert walletAddress
      { walletType := .multiSig (walletKeys.map Crypto.sample.deriveEthAddress) 2, spendingLimits :=
        none, nonce := 0 })
  }.setBalance walletAddress 1000000

/-- A transfer out of the wallet, signed with both keys. -/
def walletTransfer : Transaction :=
  let tx := (Transaction.new Crypto.sample walletAddress 5 1000 21000 0).withMultisigSignatures
    Crypto.sample []
  { tx with multisigSignatures := some (walletKeys.map fun key =>
      { signer := Crypto.sample.deriveEthAddress key, signature :=
        key ++ Bytes.be tx.hash, publicKey := key }) }

/-- A transfer out of an account, with an empty list of signatures. -/
def unsignedTransfer : Transaction :=
  (Transaction.new Crypto.sample 9 5 1000 21000 0).withMultisigSignatures Crypto.sample []

def walletRun : List Event :=
  .other openWallet :: (addGenesisAnd (childBlock 2 [walletTransfer])).map .call

theorem walletTransfer_authorised :
    childBlock 2 [walletTransfer] ∈
      (Run.run (Event.apply Host.sample) Blockchain.new walletRun).blocks.blocks ∧
      ∀ entry ∈ Run.visited (Event.apply Host.sample) Blockchain.new walletRun,
        entry.2.Authorised Host.sample entry.1 := by
  refine ⟨by decide +kernel, Event.authorised_of_run ?_⟩
  intro entry visited
  simp only [walletRun, addGenesisAnd, List.map_cons, List.map_nil, Run.visited_cons,
    Run.visited_nil, List.mem_cons, List.not_mem_nil, or_false] at visited
  rcases visited with rfl | rfl | rfl
  · trivial
  · refine ⟨by decide +kernel, ⟨?_, ?_, ?_⟩⟩
    · intro index tx found
      cases found
    · intro tx member
      cases member
    · intro tx member
      cases member
  · refine ⟨by decide +kernel, ⟨?_, ?_, ?_⟩⟩
    · intro index tx found _
      exact ⟨by decide +kernel, rfl, rfl⟩
    · intro tx member regular
      rw [List.mem_singleton.mp member] at regular
      cases regular
    · intro tx member sponsor named
      rw [List.mem_singleton.mp member] at named
      cases named

/-- A chain with a funded account and the genesis block. -/
def fundedChain : Blockchain :=
  Run.run (Event.apply Host.sample) Blockchain.new
    [.other fun chain => chain.setBalance 9 1000000, .call
      ⟨.addBlock genesisBlock, Conditions.uncontended 1600000020⟩]

/-- Without a registry, an account is emptied by a transaction that nobody signed. -/
theorem unsignedTransfer_accepted :
    (∃ after, addBlock Host.sample (Conditions.uncontended 1600000020)
      (childBlock 2 [unsignedTransfer]) fundedChain =
        .ok () after ∧ after.getBalance 9 < fundedChain.getBalance 9) ∧
      ¬Ledger.Authorised Host.sample (Conditions.uncontended 1600000020).encounters
        (childBlock 2 [unsignedTransfer]) fundedChain.toLedger := by
  have added := Fallible.eq_ok_of_succeeded
    (show Fallible.succeeded (addBlock Host.sample (Conditions.uncontended 1600000020)
      (childBlock 2 [unsignedTransfer]) fundedChain) = true by decide +kernel)
  refine ⟨⟨_, added, by decide +kernel⟩, fun authorised => ?_⟩
  obtain ⟨signers, threshold, policy, -⟩ :=
    authorised.several unsignedTransfer List.mem_cons_self [] rfl
  cases policy

end Blockchain

end IronDag
