import IronDag.Mining.PoolRecord
import IronDag.Network.OutOfOrder

namespace IronDag

open Fallible

namespace MiningManager

/-- The transaction is in a pool or waits for its nonce. -/
def Pooled (manager : MiningManager) (tx : Transaction) : Prop :=
  ∃ pooled : PooledTransaction, pooled.tx = tx ∧
    (pooled ∈ manager.txPool.transactions ∨
      (∃ streamType, pooled ∈ (manager.streamPool streamType).transactions) ∨
      ∃ sender nonce, manager.queuedAt sender nonce = some pooled)

/-- No transaction of the sender waits for the nonce of the chain, or there is room for all that
wait and one more. -/
def Undisplaced (manager : MiningManager) (view : ChainView) (sender : Address) : Prop :=
  manager.queuedAt sender (view.getNonce sender) = none ∨
    ∀ streamType,
      (manager.streamPool streamType).size + ((manager.futureTxs.lookup sender).getD ∅).keys.card <
      maxStreamPoolSize streamType

variable {manager : MiningManager} {pooled new : PooledTransaction}

theorem mem_addToPoolInner :
    pooled ∈ ((manager.addToPoolInner pooled).streamPool manager.targetStream).transactions := by
  simp [addToPoolInner, withPool, Pool.push]

/-- With room in the pool no transaction makes place for the new one. -/
theorem addToPoolInner_of_room (streamType : StreamType)
    (room : (manager.streamPool manager.targetStream).size <
      maxStreamPoolSize manager.targetStream) :
    (manager.streamPool streamType).transactions ⊆
      ((manager.addToPoolInner new).streamPool streamType).transactions ∧
      ((manager.addToPoolInner new).streamPool streamType).size ≤
        (manager.streamPool streamType).size + 1 := by
  have same : manager.makeRoom manager.targetStream new.tx.fee = manager :=
    if_neg (Nat.not_le.mpr room)
  unfold addToPoolInner
  simp only [same, withPool]
  by_cases target : streamType = manager.targetStream
  · subst target
    simp [Pool.push]
  · simp [target]

theorem mem_releaseLoop {fuel : ℕ} {nonce : U64} {queue : SenderQueue} {streamType : StreamType}
    (room : ∀ streamType, (manager.streamPool streamType).size + fuel ≤
      maxStreamPoolSize streamType)
    (held : pooled ∈ (manager.streamPool streamType).transactions) :
    pooled ∈ ((releaseLoop promote fuel nonce queue manager).2.streamPool
      streamType).transactions := by
  induction fuel generalizing nonce queue manager with
  | zero => exact held
  | succ fuel ih =>
    unfold releaseLoop
    split
    · exact held
    · rename_i next _
      have below :
          (manager.streamPool manager.targetStream).size < maxStreamPoolSize manager.targetStream :=
        (Nat.lt_add_of_pos_right fuel.succ_pos).trans_le (room _)
      have step := fun other => @addToPoolInner_of_room (manager.forget next.hash) next other below
      refine ih (fun other => ?_) ((step streamType).1 held)
      exact (Nat.add_le_add_right (step other).2 fuel).trans
        ((Nat.add_right_comm _ _ _).trans_le (room other))

/-- What follows a new transaction from the queue of its sender leaves it in its pool. -/
theorem mem_promoteFutureTxs (undisplaced : manager.Undisplaced view sender) :
    new ∈ (((manager.addToPoolInner new).promoteFutureTxs view sender).streamPool
      manager.targetStream).transactions := by
  unfold promoteFutureTxs
  rcases undisplaced with idle | room
  · have still : (manager.addToPoolInner new).queuedAt sender (view.getNonce sender) = none := by
      rw [queuedAt, futureTxs_addToPoolInner]
      exact idle
    rcases releaseQueue_of_idle promote still with same | ⟨queue, -, same⟩
    · rw [same]
      exact mem_addToPoolInner
    · rw [same]
      exact mem_addToPoolInner
  · unfold releaseQueue
    rw [futureTxs_addToPoolInner]
    split
    · exact mem_addToPoolInner
    · rename_i queue read
      rw [read, Option.getD_some] at room
      have step := fun other => @addToPoolInner_of_room manager new other
        (Nat.lt_of_le_of_lt (Nat.le_add_right _ _) (room _))
      refine mem_releaseLoop (fun other => ?_) mem_addToPoolInner
      exact (Nat.add_le_add_right (step other).2 _).trans
        ((Nat.add_right_comm _ _ _).trans_le (room other))

theorem pooled_addTransaction (accepted : (manager.addTransaction view now tx).1 = .ok ())
    (undisplaced : tx.nonce = view.getNonce tx.from → manager.Undisplaced view tx.from) :
    (manager.addTransaction view now tx).2.Pooled tx := by
  unfold addTransaction at accepted ⊢
  by_cases known : tx.hash ∈ manager.poolTxHashes
  · rw [if_pos known] at accepted
    cases accepted
  · rw [if_neg known] at accepted ⊢
    dsimp only at accepted ⊢
    split at accepted
    · cases accepted
    · rename_i affordable
      rw [if_neg affordable]
      by_cases next : tx.nonce = view.getNonce tx.from
      · rw [if_pos next]
        exact ⟨⟨tx, now⟩, rfl, .inr (.inl ⟨_, mem_promoteFutureTxs (undisplaced next)⟩)⟩
      · rw [if_neg next] at accepted ⊢
        split at accepted
        · rename_i ahead
          rw [if_pos ahead]
          split at accepted
          · cases accepted
          · rename_i few
            rw [if_neg few]
            split at accepted
            · cases accepted
            · rename_i free
              rw [if_neg free]
              exact ⟨⟨tx, now⟩, rfl, .inr (.inr ⟨tx.from, tx.nonce, by simp [queuedAt]⟩)⟩
        · split at accepted <;> cases accepted

end MiningManager

namespace GossipNode

/-- A message as it is received. -/
structure Reception where
  message : NetworkMessage
  handling : Handling

variable (libraries : Libraries)

def receive (reception : Reception) (node : GossipNode) : GossipNode :=
  node.handle libraries reception.handling reception.message

/-- A new block that the chain, as it is, would accept. -/
structure BlockAcceptable (node : GossipNode) (handling : Handling) (block : Block) : Prop where
  new : block ∉ node.chain.blocks.blocks
  parents : ParentsStored node.chain block
  accepted : ∃ after,
    Blockchain.addBlockForSync libraries.host (handling.conditions (.received 0)) block node.chain =
    .ok true after

/-- A new transaction that the pools, as they are, would accept. -/
structure TxAcceptable (node : GossipNode) (handling : Handling) (manager : MiningManager)
    (tx : Transaction) : Prop where
  pools : node.miningManager = some manager
  notPooled : ¬manager.Pooled tx
  notExecuted : ∀ block ∈ node.chain.blocks.blocks, tx ∉ block.transactions
  accepted : (manager.addTransaction (node.view handling) handling.now tx).1 = .ok ()

/-- What is acceptable gets in. -/
def Admits (node : GossipNode) (reception : Reception) : Prop :=
  match reception.message with
  | .newBlock block =>
    BlockAcceptable libraries node reception.handling block →
      block ∈ (receive libraries reception node).chain.blocks.blocks
  | .newTransaction tx =>
    ∀ manager, TxAcceptable node reception.handling manager tx →
      ∃ updated, (receive libraries reception node).miningManager = some updated ∧ updated.Pooled tx
  | _ => True

/-- What is acceptable has not been seen. -/
def Unseen (node : GossipNode) (reception : Reception) : Prop :=
  match reception.message with
  | .newBlock block =>
    BlockAcceptable libraries node reception.handling block → block.hash ∉ node.blockSeen
  | .newTransaction tx =>
    ∀ manager, TxAcceptable node reception.handling manager tx → tx.hash ∉ node.txSeen
  | _ => True

/-- A transaction with the nonce of the chain is not displaced by those that follow it. -/
def Undisturbed (node : GossipNode) (reception : Reception) : Prop :=
  match reception.message with
  | .newTransaction tx =>
    ∀ manager ∈ node.miningManager, tx.nonce = (node.view reception.handling).getNonce tx.from →
      manager.Undisplaced (node.view reception.handling) tx.from
  | _ => True

section Step

variable {libraries}

theorem stored_newBlock_iff (acceptable : BlockAcceptable libraries node handling block) :
    block ∈ (finalState (newBlock libraries handling block node)).chain.blocks.blocks ↔
      block.hash ∉ node.blockSeen := by
  constructor
  · intro stored seen
    rw [newBlock_of_seen seen] at stored
    exact acceptable.new stored
  · intro unseen
    obtain ⟨after, added⟩ := acceptable.accepted
    obtain ⟨written, final⟩ := newBlock_of_added unseen acceptable.parents added
    rw [final]
    -- the passes over the orphans only append to what the block was added to
    have kept := @blocks_offerOrphans libraries handling 0
      (node.orphanPool.getOrphanHashes (handling.orphanOrder 0))
      { node.saw handling block.hash with chain := after }
    refine kept.subset ?_
    rw [(Blockchain.appended_addBlockForSync added).blocks]
    simp

theorem miningManager_newTransaction (unseen : tx.hash ∉ node.txSeen)
    (pools : node.miningManager = some manager) :
    (finalState (newTransaction handling tx node)).miningManager =
      some (manager.addTransaction (node.view handling) handling.now tx).2 := by
  unfold newTransaction
  rw [get_bind, if_neg unseen]
  simp only [pools]
  cases (manager.addTransaction (node.view handling) handling.now tx).1 with
  | ok added | error reason => rfl

theorem unseen_of_pooled (acceptable : TxAcceptable node handling manager tx)
    (admitted : ∃ updated, (finalState (newTransaction handling tx node)).miningManager =
      some updated ∧ updated.Pooled tx) : tx.hash ∉ node.txSeen := by
  intro seen
  have same : finalState (newTransaction handling tx node) = node := by
    unfold newTransaction
    rw [get_bind, if_pos seen]
    rfl
  obtain ⟨updated, held, pooled⟩ := admitted
  rw [same, acceptable.pools] at held
  cases held
  exact acceptable.notPooled pooled

theorem admits_of_unseen (unseen : Unseen libraries node reception)
    (undisturbed : Undisturbed node reception) : Admits libraries node reception := by
  obtain ⟨message, handling⟩ := reception
  cases message with
  | newBlock block => exact fun acceptable =>
    (stored_newBlock_iff acceptable).mpr (unseen acceptable)
  | newTransaction tx =>
    intro manager acceptable
    refine ⟨_, miningManager_newTransaction (unseen manager acceptable) acceptable.pools, ?_⟩
    exact MiningManager.pooled_addTransaction acceptable.accepted
      (undisturbed manager acceptable.pools)
  | _ => trivial

theorem unseen_of_admits (admits : Admits libraries node reception) :
    Unseen libraries node reception := by
  obtain ⟨message, handling⟩ := reception
  cases message with
  | newBlock block => exact fun acceptable =>
    (stored_newBlock_iff acceptable).mp (admits acceptable)
  | newTransaction tx =>
    exact fun manager acceptable => unseen_of_pooled acceptable (admits manager acceptable)
  | _ => trivial

end Step

/-- In a run in which no transaction is displaced again, nothing that is acceptable is kept out
exactly if none of it has been seen before when it comes. -/
theorem run_admits_iff {start : GossipNode} {receptions : List Reception}
    (undisturbed : ∀ entry ∈ Run.visited (receive libraries) start receptions,
      Undisturbed entry.1 entry.2) :
    (∀ entry ∈ Run.visited (receive libraries) start receptions, Admits libraries entry.1 entry.2) ↔
      ∀ entry ∈ Run.visited (receive libraries) start receptions,
        Unseen libraries entry.1 entry.2 :=
  forall₂_congr fun entry visited =>
    ⟨unseen_of_admits, fun unseen => admits_of_unseen unseen (undisturbed entry visited)⟩

/-- A node with empty pools is sent a transfer. -/
def miningNode : GossipNode :=
  { sample with miningManager := some (MiningManager.new false) }

def transfer : Transaction :=
  Transaction.new Crypto.sample 1 5 1000 21000 0

def sentTransfer : List Reception :=
  [⟨.newTransaction transfer, Handling.sample samplePeer⟩]

theorem sentTransfer_admitted :
    TxAcceptable miningNode (Handling.sample samplePeer) (MiningManager.new false) transfer ∧
      ∀ entry ∈ Run.visited (receive Libraries.sample) miningNode sentTransfer,
        Admits Libraries.sample entry.1 entry.2 := by
  constructor
  · refine ⟨rfl, ?_, by decide +kernel, by decide +kernel⟩
    rintro ⟨pooled, -, legacy | ⟨streamType, held⟩ | ⟨sender, nonce, queued⟩⟩
    · cases legacy
    · cases held
    · cases queued
  · refine (run_admits_iff Libraries.sample fun entry visited => ?_).mpr fun entry visited => ?_
    · obtain rfl := List.mem_singleton.mp visited
      rintro manager ⟨⟩ -
      exact .inl rfl
    · obtain rfl := List.mem_singleton.mp visited
      intro manager _
      exact Finset.notMem_empty _

/-- Another block under the hash of the first generation. -/
def forgedGeneration : Block :=
  { firstGeneration with header := { firstGeneration.header with nonce := 1 } }

def forgedFirst : List Reception :=
  [forgedGeneration, firstGeneration].map fun block => ⟨.newBlock block, Handling.sample samplePeer⟩

/-- The forged block is rejected, and the real one is then taken for a duplicate. -/
theorem forgedFirst_keeps_out :
    ¬∀ entry ∈ Run.visited (receive Libraries.sample) sample forgedFirst,
      Admits Libraries.sample entry.1 entry.2 := by
  intro admitted
  have second := admitted _ (List.mem_cons_of_mem _ List.mem_cons_self)
  refine absurd (second ⟨by decide +kernel, fun parent listed => ?_, ?_⟩) (by decide +kernel)
  · obtain rfl := List.mem_singleton.mp listed
    decide +kernel
  · have accepted : returned
        (Blockchain.addBlockForSync Host.sample sampleConditions firstGeneration
        (receive Libraries.sample
          ⟨.newBlock forgedGeneration, Handling.sample samplePeer⟩ sample).chain) = some true := by
      decide +kernel
    exact ⟨_, eq_ok_of_returned accepted⟩

end GossipNode

end IronDag
