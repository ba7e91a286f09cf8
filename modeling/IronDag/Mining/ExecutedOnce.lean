import IronDag.Chain.Conservation
import IronDag.Chain.Nonces
import IronDag.Mining.ProofOfWork
import IronDag.Mining.Turns

namespace IronDag

open Ledger Transaction
open List hiding after

namespace Step

variable (host : Host) (step : Step) (chain : Blockchain)

/-- The transactions that the call executes, in their order. A later failure of the call does not
undo them. -/
def executed : List Transaction :=
  executedIn host step.call.block (step.turns host chain)

/-- Every transaction that the call gets to is counted by the account of its sender, and no
recurring payment is due from an account at the last nonce. -/
structure Counts : Prop where
  turns : ∀ turn ∈ step.turns host chain, turn.Counts host
  payments : ∀ entry ∈ step.payments host chain, entry.1.getNonce entry.2.from ≠ BitVec.allOnes 64

variable {host step chain}

/-- The blocks, the reward and the payments leave the nonces drawn so far. -/
theorem traced_drawnIn (host : Host) (block : Block) : Traced (DrawnIn host block) where
  toComposes := composes_drawnIn
  commit chain conditions block := by
    refine Drawn.none fun address => Nat.le_of_eq ?_
    exact congrFun Blockchain.nonces_commitBlock.symm address
  credit chain miner submission := by
    refine Drawn.none fun address => Nat.le_of_eq (congrArg BitVec.toNat ?_)
    exact (getNonce_setBalance _ _ _ _).symm

/-- A call draws the nonces of the transactions that it executes. -/
theorem drawn_of_step (counts : step.Counts host chain) :
    Drawn chain.nonces (step.apply host chain).nonces ((step.executed host chain).map ticket) := by
  refine (traced_drawnIn host step.call.block).apply ?_ ?_
  · intro turn reached
    exact drawnIn_turn (counts.turns turn reached)
  · intro entry due
    exact Drawn.none (Blockchain.nonces_executeRecurring (counts.payments entry due))

end Step

/-- The transactions that a run executes, in their order. -/
def executedBy (host : Host) (start : Blockchain) (steps : List Step) : List Transaction :=
  (Run.visited (Step.apply host) start steps).flatMap fun entry => entry.2.executed host entry.1

/-- Nonces of one sender ascend, so that neither a nonce of a sender nor a hash comes twice. -/
structure ExecutedOnce (transactions : List Transaction) : Prop where
  ascending : ∀ address,
    ((transactions.filter fun tx => decide (tx.from = address)).map nonce).Pairwise (· < ·)
  pairs : (transactions.map fun tx => (tx.from, tx.nonce)).Nodup
  hashes : (transactions.map hash).Nodup

/-- The sender and the nonce come before everything of variable length in the preimage. -/
theorem Transaction.ticket_of_hashPreimage {first second : Transaction}
    (same : first.hashPreimage = second.hashPreimage) : first.ticket = second.ticket := by
  simp only [hashPreimage, append_assoc] at same
  obtain ⟨sender, same⟩ := append_inj same (by simp)
  obtain ⟨-, same⟩ := append_inj same (by simp)
  obtain ⟨-, same⟩ := append_inj same (by simp)
  obtain ⟨-, same⟩ := append_inj same (by simp)
  obtain ⟨nonce, -⟩ := append_inj same (by simp)
  rw [ticket, ticket, Bytes.be_injective (by decide) sender, Bytes.le_injective (by decide) nonce]

/-- Tickets that are drawn in their order are executed once, where the hash of each transaction is
that of its contents and no two contents collide. -/
theorem executedOnce_of_drawn (drawn : Drawn before after (transactions.map ticket))
    (hashed : ∀ tx ∈ transactions, tx.hash = tx.calculateHash crypto)
    (collisionFree :
      Set.InjOn crypto.keccak256 {message | ∃ tx ∈ transactions, message = tx.hashPreimage}) :
    ExecutedOnce transactions := by
  have once : transactions.Nodup := drawn.nodup.of_map
  have ofTicket : ∀ first ∈ transactions, ∀ second ∈ transactions, first.ticket = second.ticket →
      first = second :=
    fun first listed second also same => inj_on_of_nodup_map drawn.nodup listed also same
  refine ⟨?_, ?_, ?_⟩
  · intro address
    have ordered := (pairwise_map.mp drawn.ascending).filter fun tx => decide (tx.from = address)
    refine pairwise_map.mpr (ordered.imp_of_mem ?_)
    intro first second listed also higher
    have sender := of_decide_eq_true (mem_filter.mp listed).2
    have other := of_decide_eq_true (mem_filter.mp also).2
    exact BitVec.lt_def.mpr (higher (sender.trans other.symm))
  · refine once.map_on ?_
    intro first listed second also same
    apply ofTicket first listed second also
    rw [ticket, ticket, (Prod.mk.inj same).1, (Prod.mk.inj same).2]
  · refine once.map_on ?_
    intro first listed second also same
    apply ofTicket first listed second also
    rw [hashed first listed, hashed second also] at same
    exact ticket_of_hashPreimage (collisionFree ⟨first, listed, rfl⟩ ⟨second, also, rfl⟩ same)

theorem hash_of_executedBy
    (counts : ∀ entry ∈ Run.visited (Step.apply host) start steps, entry.2.Counts host entry.1)
    (executed : tx ∈ executedBy host start steps) : tx.hash = tx.calculateHash host.crypto := by
  obtain ⟨⟨chain, step⟩, visited, executed⟩ := mem_flatMap.mp executed
  obtain ⟨turn, chosen, rfl⟩ := mem_map.mp executed
  obtain ⟨reached, done⟩ := mem_filter.mp chosen
  have plain := ((counts _ visited).turns turn reached).plain
  unfold Step.turns at reached
  split at reached
  · exact hash_of_executed reached plain done
  · cases reached

/-- In a run whose transactions are all counted by their senders, no transaction is executed
again. -/
theorem executedOnce_of_run {host : Host} {start : Blockchain} {steps : List Step}
    (counts : ∀ entry ∈ Run.visited (Step.apply host) start steps, entry.2.Counts host entry.1)
    (collisionFree : Set.InjOn host.crypto.keccak256
      {message | ∃ tx ∈ executedBy host start steps, message = tx.hashPreimage}) :
    ExecutedOnce (executedBy host start steps) := by
  have drawn := @Drawn.of_run Address Blockchain Step (Step.apply host) (fun chain => chain.nonces)
    (fun entry => (entry.2.executed host entry.1).map ticket) start steps
    fun entry visited => Step.drawn_of_step (counts entry visited)
  rw [← map_flatMap] at drawn
  exact executedOnce_of_drawn drawn (fun tx executed => hash_of_executedBy counts executed)
    collisionFree

namespace Blockchain

/-- The address of the contract that a sender creates next. -/
def createdAddress (backend : EvmBackend) (tx : Transaction) : Address :=
  EvmExecutor.generateContractAddress Crypto.sample tx.from (backend.nonce tx.from)

/-- The answer to a deployment of the one byte `PUSH1`: 53000 units of gas for a creation, 16 for
the byte, 2 for its word and 3 to run it. The sender is counted, and the contract is empty. -/
def deployingHost : Host :=
  { Host.sample with
    interpreter := fun backend tx =>
      if tx.gasLimit.toNat < 53021 then .error "SputnikVM error: OutOfGas"
      else .ok
        { output := [], gasUsed := 53021, logs := []
          changes :=
            [.modify tx.from (backend.balance tx.from).toNat ((backend.nonce tx.from).toNat + 1)
                none [] false,
              .modify (createdAddress backend tx) 0 1 (some []) [] true] } }

/-- A funded node without blocks, with contracts enabled. -/
def contractChain (database : Option StateDatabase) : Blockchain :=
  { Blockchain.new with
    toLedger :=
      { funded with
        database := database.map fun store => store.putBalance sampleSender 100000
        evmEnabled := true
        evmExecutor :=
          some { state := EvmState.empty, persistent := database.isSome, blockHashes := [] } } }

def deployment (nonce : U64) : Transaction :=
  (withData Crypto.sample sampleSender Address.zero 0 21000 nonce [0x60] 100000).signSample

/-- What has to be looked at for a turn on a node with this interpreter. -/
def countedTurn (turn : Turn) : Bool :=
  turn.ledger.walletRegistry.isNone && decide (turn.tx.nonce ≠ BitVec.allOnes 64) &&
    (turn.ledger.executorFor turn.tx).all fun executor =>
      let created := EvmExecutor.generateContractAddress Crypto.sample turn.tx.from
        (executor.getAccountNonce turn.ledger.database turn.tx.from)
      executor.persistent && turn.ledger.database.isSome && turn.ledger.verkleState.isNone &&
        decide (executor.getAccountNonce turn.ledger.database turn.tx.from =
          turn.ledger.getNonce turn.tx.from) &&
        decide (created ≠ turn.tx.from ∧ turn.ledger.nonces created ≤ 1)

theorem counts_of_countedTurn (checked : countedTurn turn = true) : turn.Counts deployingHost := by
  simp only [countedTurn, Bool.and_eq_true, Option.isNone_iff_eq_none, decide_eq_true_eq] at checked
  obtain ⟨⟨unregistered, below⟩, executors⟩ := checked
  refine ⟨rfl, ?_, below, ?_⟩
  · intro registry configured
    rw [unregistered] at configured
    cases configured
  · intro executor enabled
    rw [enabled, Option.all_some] at executors
    simp only [Bool.and_eq_true, Option.isNone_iff_eq_none, decide_eq_true_eq] at executors
    obtain ⟨⟨⟨⟨persistent, database⟩, noVerkle⟩, same⟩, other, fresh⟩ := executors
    refine ⟨persistent, database, noVerkle, ?_⟩
    intro success answered
    have nonce : (executor.getAccountNonce turn.ledger.database turn.tx.from).toNat =
        turn.ledger.nonces turn.tx.from := by
      rw [same, nonces]
    simp only [deployingHost] at answered
    split at answered
    · cases answered
    · cases answered
      refine ⟨⟨_, mem_cons_self, rfl⟩, ?_, ?_⟩
      · intro change member sender
        rcases mem_pair.mp member with rfl | rfl
        · exact congrArg (· + 1) nonce
        · exact absurd sender other
      · intro change member
        rcases mem_pair.mp member with rfl | rfl
        · exact Nat.le_succ_of_le (Nat.le_of_eq nonce.symm)
        · exact fresh

theorem injOn_of_apart {crypto : Crypto} {first second : Transaction}
    (apart : crypto.keccak256 first.hashPreimage ≠ crypto.keccak256 second.hashPreimage) :
    Set.InjOn crypto.keccak256 {message | ∃ tx ∈ [first, second], message = tx.hashPreimage} := by
  intro message ⟨one, listed, shape⟩ other ⟨two, also, alike⟩ same
  rw [shape, alike] at same ⊢
  simp only [mem_cons, not_mem_nil, or_false] at listed also
  rcases listed with rfl | rfl <;> rcases also with rfl | rfl
  · rfl
  · exact absurd same apart
  · exact absurd same.symm apart
  · rfl

/-- A transfer and a deployment on a node with a database. -/
def countedRun : List Step :=
  addGenesisAnd (childBlock 2 [paidTransfer, deployment 1])

theorem countedRun_executedOnce : executedBy deployingHost
        (contractChain (some StateDatabase.empty)) countedRun = [paidTransfer, deployment 1] ∧
      ExecutedOnce
        (executedBy deployingHost (contractChain (some StateDatabase.empty)) countedRun) := by
  have executed : executedBy deployingHost (contractChain (some StateDatabase.empty)) countedRun =
      [paidTransfer, deployment 1] := by decide +kernel
  have checked :
      ((Run.visited (Step.apply deployingHost)
        (contractChain (some StateDatabase.empty)) countedRun).all
      fun entry => (entry.2.turns deployingHost entry.1).all countedTurn &&
        (entry.2.payments deployingHost entry.1).isEmpty) = true := by decide +kernel
  refine ⟨executed, executedOnce_of_run ?_ ?_⟩
  · intro entry visited
    have both := all_eq_true.mp checked entry visited
    rw [Bool.and_eq_true, all_eq_true, List.isEmpty_iff] at both
    refine ⟨fun turn reached => counts_of_countedTurn (both.1 turn reached), ?_⟩
    rw [both.2]
    intro payment impossible
    cases impossible
  · rw [executed]
    exact injOn_of_apart (by decide +kernel)

/-- Without a database the interpreter's nonce stays with the executor, and one transaction is
executed twice in a block. -/
theorem deployment_executed_twice : (contractChain none).blocks.blocks = [] ∧
      executedBy deployingHost (contractChain none)
        (addGenesisAnd (childBlock 2 [deployment 0, deployment 0])) = [deployment 0, deployment 0] ∧
      ¬ExecutedOnce
        (executedBy deployingHost (contractChain none)
          (addGenesisAnd (childBlock 2 [deployment 0, deployment 0]))) := by
  have executed : executedBy deployingHost (contractChain none)
      (addGenesisAnd (childBlock 2 [deployment 0, deployment 0])) =
      [deployment 0, deployment 0] := by decide +kernel
  refine ⟨rfl, executed, fun once => ?_⟩
  have hashes := once.hashes
  rw [executed] at hashes
  exact absurd hashes (by simp)

end Blockchain

end IronDag
