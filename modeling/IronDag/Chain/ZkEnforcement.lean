import IronDag.Chain.Acceptance
import IronDag.Lib.Run

namespace IronDag

open Blockchain

inductive Entry where
  | addBlock
  | addBlockPreVerified
  | addBlockForSync
  deriving DecidableEq, Repr

/-- A block, the way it takes and what it meets there. -/
structure Arrival where
  entry : Entry
  block : Block
  conditions : Conditions

namespace Arrival

variable (host : Host) (arrival : Arrival) (chain : Blockchain)

/-- The state after the call, whatever it returned. -/
def apply : Blockchain :=
  match arrival.entry with
  | .addBlock => Fallible.finalState (addBlock host arrival.conditions arrival.block chain)
  | .addBlockPreVerified =>
    Fallible.finalState (addBlockPreVerified host arrival.conditions arrival.block chain)
  | .addBlockForSync =>
    Fallible.finalState (addBlockForSync host arrival.conditions arrival.block chain)

end Arrival

/-- The block carries a proof that was verified against the root of its transactions. -/
def Block.Proven (host : Host) (key : Bytes) (block : Block) : Prop :=
  ∃ proof, block.zkProof = some proof ∧
    host.verifyStateTransition key proof (zkPublicInputs host.crypto block) = .ok true

/-- A block of stream C other than the genesis block is proven. -/
def Block.Enforced (host : Host) (key : Bytes) (block : Block) : Prop :=
  block.header.streamType = .streamC → block.header.blockNumber ≠ 0 → block.Proven host key

namespace Blockchain

variable {chain after : Blockchain}

/-- Proofs are enforced with a key at hand, and every block has one. -/
structure Enforcing (host : Host) (key : Bytes) (chain : Blockchain) : Prop where
  enforce : chain.zkEnforce = true
  loaded : chain.zkVerifyingKey = some key
  stored : ∀ block ∈ chain.blocks.blocks, block.Enforced host key

theorem Enforcing.proven (enforcing : chain.Enforcing host key) (build : host.privacyBuild = true)
    (checked : chain.checkZkProof host block = .ok ()) : block.Enforced host key := by
  intro stream _
  rw [checkZkProof, if_pos ⟨build, stream⟩, enforcing.enforce, enforcing.loaded] at checked
  unfold Block.Proven
  cases carried : block.zkProof with
  | none => simp [carried, invalidBlock] at checked
  | some proof =>
    refine ⟨proof, rfl, ?_⟩
    simp only [carried] at checked
    split at checked
    · assumption
    · simp [invalidBlock] at checked
    · simp [invalidBlock] at checked

/-- A step that keeps the key and its use, and may store one enforced block. -/
theorem Enforcing.step (enforcing : chain.Enforcing host key) (block : Block)
    (enforce : after.zkEnforce = chain.zkEnforce)
    (loaded : after.zkVerifyingKey = chain.zkVerifyingKey)
    (stored : after.blocks.blocks = chain.blocks.blocks ∨
      after.blocks.blocks = chain.blocks.blocks ++ [block] ∧ block.Enforced host key) :
        after.Enforcing host key := by
  refine ⟨enforce.trans enforcing.enforce, loaded.trans enforcing.loaded, ?_⟩
  rcases stored with same | ⟨appended, proven⟩
  · rw [same]
    exact enforcing.stored
  · rw [appended]
    exact List.forall_mem_append.mpr ⟨enforcing.stored, List.forall_mem_singleton.mpr proven⟩

theorem Unfinished.enforcing (stopped : Unfinished host conditions block chain fault after)
    (enforcing : chain.Enforcing host key) : after.Enforcing host key := by
  have blocks := stopped.blocks
  have fields : after.zkEnforce = chain.zkEnforce ∧
      after.zkVerifyingKey = chain.zkVerifyingKey := by
    obtain ⟨ledger, -, rfl⟩ | ⟨ledger, reason, left, -, -, -, rfl⟩ := stopped <;> exact ⟨rfl, rfl⟩
  exact enforcing.step block fields.1 fields.2 (.inl (congrArg BlocksData.blocks blocks))

theorem blocks_commitBlock
    (processed : Ledger.validateAndProcessTransactions host conditions.encounters block
      chain.toLedger = .ok () ledger) :
    ({ chain with toLedger := ledger }.commitBlock conditions block).blocks.blocks =
      chain.blocks.blocks ++ [block] := by
  have frame :=
    Ledger.keeps_validateAndProcessTransactions host conditions.encounters block chain.toLedger
  rw [processed] at frame
  show ledger.blocks.blocks ++ [block] = _
  rw [show ledger.blocks = chain.blocks from frame.blocks]

theorem Enforcing.addBlockImpl (enforcing : chain.Enforcing host key)
    (build : host.privacyBuild = true)
    (conditions : Conditions) (preVerified : Bool) (block : Block) :
    (Fallible.finalState (addBlockImpl host conditions preVerified block chain)).Enforcing
      host key := by
  cases done : Blockchain.addBlockImpl host conditions preVerified block chain with
  | error fault after =>
    obtain ⟨-, rfl⟩ | ⟨-, stopped⟩ := addBlockImpl_eq_error.mp done
    · exact enforcing
    · exact stopped.enforcing enforcing
  | ok result after =>
    obtain ⟨checked, -, ledger, processed, rfl⟩ := addBlockImpl_eq_ok.mp done
    simp only [checkBlock, Check.bind_eq_ok] at checked
    obtain ⟨accounts, spent, dag, recurring, governance, finished⟩ := @onlyFinished_finishBlock
      conditions block host.crypto ({ chain with toLedger := ledger }.commitBlock conditions block)
    rw [finished]
    exact enforcing.step block rfl rfl
      (.inr ⟨blocks_commitBlock processed, enforcing.proven build checked.2.2.1⟩)

/-- Blocks received from peers are not checked. -/
theorem Enforcing.addBlockForSync (enforcing : chain.Enforcing host key)
    (proven : block.Enforced host key) :
    (Fallible.finalState (addBlockForSync host conditions block chain)).Enforcing host key := by
  cases done : Blockchain.addBlockForSync host conditions block chain with
  | error fault after =>
    obtain ⟨-, rfl⟩ | ⟨-, -, stopped⟩ := addBlockForSync_eq_error.mp done
    · exact enforcing
    · exact stopped.enforcing enforcing
  | ok result after =>
    obtain ⟨-, ⟨-, -, rfl⟩ | ⟨-, -, -, ledger, processed, rfl⟩⟩ := addBlockForSync_eq_ok.mp done
    · exact enforcing
    · exact enforcing.step block rfl rfl (.inr ⟨blocks_commitBlock processed, proven⟩)

theorem Enforcing.apply {arrival : Arrival} (enforcing : chain.Enforcing host key)
    (build : host.privacyBuild = true)
    (proven : arrival.entry = .addBlockForSync → arrival.block.Enforced host key) :
    (arrival.apply host chain).Enforcing host key := by
  unfold Arrival.apply
  cases entry : arrival.entry with
  | addBlock | addBlockPreVerified => exact enforcing.addBlockImpl build _ _ _
  | addBlockForSync => exact enforcing.addBlockForSync (proven entry)

/-- Along every run in which the blocks received from peers carry their proofs, so does every stored
block. -/
theorem stored_proven (host : Host) (key : Bytes) (start : Blockchain) (arrivals : List Arrival)
    (build : host.privacyBuild = true) (enforce : start.zkEnforce = true)
    (loaded : start.zkVerifyingKey = some key)
    (empty : start.blocks.blocks = [])
    (received : ∀ arrival ∈ arrivals, arrival.entry = .addBlockForSync →
      arrival.block.Enforced host key) :
    ∀ chain ∈ Run.states (Arrival.apply host) start arrivals, ∀ block ∈ chain.blocks.blocks,
      block.Enforced host key := by
  have initial : start.Enforcing host key := ⟨enforce, loaded, by simp [empty]⟩
  have along := @Run.invariant_states _ _ (Arrival.apply host) start arrivals (Enforcing host key)
    (fun _ arrival => arrival.entry = .addBlockForSync → arrival.block.Enforced host key)
    (fun _ _ enforcing proven => enforcing.apply build proven) initial
    (fun entry found => received entry.2 (Run.mem_inputs_of_visited found))
  exact fun chain reached => (along chain reached).stored

/-- A build with the `privacy` feature, under which the proof `[1]` verifies. -/
def enforcingHost : Host :=
  { Host.sample with
    privacyBuild := true
    verifyStateTransition := fun _ proof _ => .ok (decide (proof = [1])) }

def enforcingChain : Blockchain :=
  { new with zkEnforce := true, zkVerifyingKey := some [] }

def streamCBlock (zkProof : Option Bytes) : Block :=
  { Block.new Crypto.sample { (childBlock 1 []).header with streamType := .streamC }
    [] with zkProof }

/-- The genesis block, and a child that a peer sent. -/
def receivedBlocks (zkProof : Option Bytes) : List Arrival :=
  [⟨.addBlock, genesisBlock, .uncontended 1600000020⟩,
    ⟨.addBlockForSync, streamCBlock zkProof, .uncontended 1600000020⟩]

theorem receivedBlock_proven :
    (∀ arrival ∈ receivedBlocks (some [1]), arrival.entry = .addBlockForSync →
      arrival.block.Enforced enforcingHost []) ∧
      ∀ chain ∈ Run.states (Arrival.apply enforcingHost) enforcingChain (receivedBlocks (some [1])),
        ∀ block ∈ chain.blocks.blocks, block.Enforced enforcingHost [] := by
  have received : ∀ arrival ∈ receivedBlocks (some [1]), arrival.entry = .addBlockForSync →
      arrival.block.Enforced enforcingHost [] := by
    intro arrival member entry
    rcases List.mem_pair.mp member with rfl | rfl
    · cases entry
    · exact fun _ _ => ⟨[1], rfl, rfl⟩
  exact ⟨received, stored_proven enforcingHost [] enforcingChain _ rfl rfl rfl rfl received⟩

theorem receivedBlock_unproven :
    ¬∀ arrivals, ∀ chain ∈ Run.states (Arrival.apply enforcingHost) enforcingChain arrivals,
      ∀ block ∈ chain.blocks.blocks, block.Enforced enforcingHost [] := fun always => by
  have stored : (Run.run (Arrival.apply enforcingHost) enforcingChain
      (receivedBlocks none)).blocks.blocks[1]? = some (streamCBlock none) := by decide +kernel
  obtain ⟨proof, carried, -⟩ :=
    always _ _ Run.run_mem_states _ (List.mem_of_getElem? stored) rfl (by decide)
  cases carried

end Blockchain

end IronDag
