import IronDag.Lib.Run
import IronDag.Sharding.Transit

namespace IronDag

open Multiset ShardEvent ShardTask
open ShardSystem hiding manager
open Prod hiding map map_map

namespace ShardTask

/-- The debit that a call is about to make: the transaction and the id of its receipt. -/
def planned (crypto : Crypto) : ShardTask → Multiset (Hash × Hash)
  | .called txHash crossTx | .checked txHash crossTx =>
    {(txHash, ShardManager.receiptIdOf crypto txHash crossTx)}
  | _ => 0

/-- The ids of the transactions that timed out and are about to be refunded. -/
def promised (crypto : Crypto) : ShardTask → Multiset Hash
  | .timeoutRefunding refunds =>
    (refunds : Multiset (Hash × CrossShardTransaction)).map fun refund =>
      ShardManager.receiptIdOf crypto refund.1 refund.2
  | _ => 0

end ShardTask

namespace ShardEvent

/-- The transaction that an event debits, with the id of its receipt. -/
def debits (crypto : Crypto) : Option ShardEvent → List (Hash × Hash)
  | some (.debit txHash crossTx) =>
    [(txHash, ShardManager.receiptIdOf crypto txHash crossTx)]
  | _ => []

/-- The id of the receipt that an event credits. -/
def credits : Option ShardEvent → List Hash
  | some (.credit entry) => [entry.receiptId]
  | _ => []

/-- The id of the receipt whose transaction an event refunds. -/
def refunds (crypto : Crypto) : Option ShardEvent → List Hash
  | some (.retryRefund _ entry) => [entry.receiptId]
  | some (.timeoutRefund txHash crossTx) =>
    [ShardManager.receiptIdOf crypto txHash crossTx]
  | _ => []

/-- The id of a receipt that ends without a credit. -/
def abandons : Option ShardEvent → List Hash
  | some (.retryRefund _ entry) | some (.drop entry) => [entry.receiptId]
  | _ => []

variable (crypto : Crypto) (event : Option ShardEvent)

theorem created_ids :
    (created crypto event).map fst = (debits crypto event : Multiset (Hash × Hash)).map snd := by
  rcases event with - | event
  · rfl
  · cases event <;> rfl

theorem settled_ids :
    (settled event).map Prod.fst =
      (credits event : Multiset Hash) + (abandons event : Multiset Hash) := by
  rcases event with - | event
  · rfl
  · cases event <;> rfl

end ShardEvent

namespace ShardManager

/-- A call goes on to at most the debit that it planned. -/
theorem Outcome.planned (outcome : Outcome crypto access manager task after next) :
    next.bind (planned crypto) + (debits crypto (manager.event task) : Multiset (Hash × Hash)) ≤
      task.planned crypto := by
  cases outcome with
  | failed registered =>
    simp [event, debits, ShardTask.planned]
  | forgotten absent | _ => simp [event, debits, ShardTask.planned]

/-- A refund that is made or promised was promised before, abandons its receipt, or follows a
timeout. -/
theorem Outcome.refunds (outcome : Outcome crypto access manager task after next) {receiptId : Hash}
    (refunded : receiptId ∈
      next.bind (promised crypto) + (refunds crypto (manager.event task) : Multiset Hash)) :
    receiptId ∈ task.promised crypto ∨ receiptId ∈ abandons (manager.event task) ∨
      task = .timingOut ∧ ∃ refund ∈ manager.timedOutTxs access.iteration access.now,
        ShardManager.receiptIdOf crypto refund.1 refund.2 = receiptId := by
  cases outcome with
  | failed registered =>
    simp [event, ShardEvent.refunds, promised] at refunded
  | forgotten absent =>
    simp [event, ShardEvent.refunds, promised] at refunded
  | refunded =>
    exact .inr (.inl refunded)
  | timedOut =>
    simp only [event, ShardEvent.refunds, promised, singleton_bind, coe_nil, add_zero,
      mem_map, mem_coe] at refunded
    exact .inr (.inr ⟨rfl, refunded⟩)
  | timeoutRefunded =>
    refine .inl ?_
    simp only [event, ShardEvent.refunds, promised, singleton_bind, ← cons_coe,
      coe_nil, map_cons, mem_add, mem_cons, notMem_zero, or_false]
      at refunded ⊢
    exact refunded.symm
  | _ => simp [event, ShardEvent.refunds, promised] at refunded

end ShardManager

/-- A system with what happened in it so far. -/
structure ShardHistory where
  system : ShardSystem
  debited : List Hash
  /-- The ids of the receipts credited. -/
  credited : List Hash
  /-- The ids of the receipts of the transactions refunded. -/
  refunded : List Hash

namespace ShardHistory

variable (crypto : Crypto) (history : ShardHistory)

def start (manager : ShardManager) : ShardHistory where
  system := ShardSystem.start manager
  debited := []
  credited := []
  refunded := []

def apply (step : ShardStep) (history : ShardHistory) : ShardHistory :=
  let event := history.system.event step
  { system := history.system.apply crypto step
    debited := (debits crypto event).map fst ++ history.debited
    credited := credits event ++ history.credited
    refunded := refunds crypto event ++ history.refunded }

/-- What exactly-once crediting means for what happened. -/
structure ExactlyOnce (history : ShardHistory) : Prop where
  credits : history.credited.Nodup
  debits : history.debited.Nodup
  exclusive : ∀ receiptId ∈ history.refunded, receiptId ∉ history.credited

/-- The debits that calls are about to make. -/
def planned : Multiset (Hash × Hash) :=
  history.system.tasks.bind (ShardTask.planned crypto)

def promised : Multiset Hash :=
  history.system.tasks.bind (ShardTask.promised crypto)

/-- The transactions that were debited or are about to be. -/
def debitsAtStake : Multiset Hash :=
  (history.planned crypto).map fst + history.debited

/-- The ids of the receipts that a call is about to create, that are in transit, or that were
credited. -/
def receiptsAtStake : Multiset Hash :=
  (history.planned crypto).map snd + (history.system.inTransit crypto).map fst + history.credited

/-- The ids of the receipts whose transactions were refunded or are about to be because they timed
out. -/
def refundsAtStake : Multiset Hash :=
  history.promised crypto + history.refunded

/-- A step that does nothing about a transaction or a receipt that something was done about
before. -/
def Orderly (history : ShardHistory) : ShardStep → Prop
  | .processCrossShardTransaction txHash =>
    ∀ crossTx, history.system.manager.crossShardTxs.lookup txHash = some crossTx →
      txHash ∉ history.debitsAtStake crypto ∧
      ShardManager.receiptIdOf crypto txHash crossTx ∉
        history.receiptsAtStake crypto + history.refundsAtStake crypto
  | .advance .timingOut access =>
    ∀ refund ∈ history.system.manager.timedOutTxs access.iteration access.now,
      ShardManager.receiptIdOf crypto refund.1 refund.2 ∉ history.receiptsAtStake crypto
  | .replayWal _ =>
    ((history.system.manager.wal.getD []).map Receipt.receiptId).Nodup ∧
      ∀ receipt ∈ history.system.manager.wal.getD [],
        receipt.receiptId ∉ history.receiptsAtStake crypto + history.refundsAtStake crypto
  | _ => True

/-- Each transaction and each receipt is at stake once. -/
structure Distinct (history : ShardHistory) : Prop where
  debits : (history.debitsAtStake crypto).Nodup
  receipts : (history.receiptsAtStake crypto).Nodup
  refunds : ∀ receiptId ∈ history.refundsAtStake crypto, receiptId ∉ history.receiptsAtStake crypto

variable {crypto history} {after : ShardHistory}

theorem Distinct.exactlyOnce (distinct : history.Distinct crypto) : history.ExactlyOnce where
  credits := coe_nodup.mp (nodup_of_le (le_add_left _ _) distinct.receipts)
  debits := coe_nodup.mp (nodup_of_le (le_add_left _ _) distinct.debits)
  exclusive := fun receiptId refunded credited =>
    distinct.refunds receiptId (mem_add.mpr (.inr refunded)) (mem_add.mpr (.inr credited))

theorem Distinct.of_le (distinct : history.Distinct crypto)
    (debits : after.debitsAtStake crypto ≤ history.debitsAtStake crypto)
    (receipts : after.receiptsAtStake crypto ≤ history.receiptsAtStake crypto)
    (refunds : ∀ receiptId ∈ after.refundsAtStake crypto,
      receiptId ∈ history.refundsAtStake crypto ∨ receiptId ∉ after.receiptsAtStake crypto) :
    after.Distinct crypto where
  debits := nodup_of_le debits distinct.debits
  receipts := nodup_of_le receipts distinct.receipts
  refunds := fun receiptId refunded present => by
    rcases refunds receiptId refunded with earlier | absent
    · exact distinct.refunds receiptId earlier (mem_of_le receipts present)
    · exact absent present

section Advance

variable {task : ShardTask} {access : ShardAccess} (running : task ∈ history.system.tasks)

include running

theorem event_advance :
    history.system.event (.advance task access) = history.system.manager.event task := by
  rw [ShardSystem.event, if_pos running]

theorem tasks_advance : (apply crypto (.advance task access) history).system.tasks =
    Custody.replace history.system.tasks task
      (history.system.manager.advance crypto access task).2 := by
  simp only [apply, ShardSystem.apply, advance, if_pos running]

theorem planned_advance : (apply crypto (.advance task access) history).planned crypto +
        (debits crypto (history.system.manager.event task) : Multiset (Hash × Hash)) ≤
      history.planned crypto := by
  have replaced := Custody.bind_replace (ShardTask.planned crypto)
    (history.system.manager.advance crypto access task).2 running
  have continued := (history.system.manager.outcome_advance crypto access task).planned
  rw [planned, tasks_advance running]
  apply le_of_add_le_add_right (a := task.planned crypto)
  rw [add_right_comm, replaced, add_assoc]
  exact add_le_add_right continued _

theorem debitsAtStake_advance :
    (apply crypto (.advance task access) history).debitsAtStake crypto ≤
      history.debitsAtStake crypto := by
  have replaced := map_le_map (f := fst) (@planned_advance crypto history task access running)
  have recorded : ((apply crypto (.advance task access) history).debited : Multiset Hash) =
      (debits crypto (history.system.manager.event task) : Multiset (Hash × Hash)).map fst +
        history.debited := by
    simp only [apply, event_advance running, ← coe_add, map_coe]
  rw [map_add] at replaced
  rw [debitsAtStake, recorded, ← add_assoc]
  exact add_le_add_left replaced _

/-- A receipt that ends without a credit is no longer at stake, and no receipt comes to be at
stake. -/
theorem receiptsAtStake_advance :
    (apply crypto (.advance task access) history).receiptsAtStake crypto +
        (abandons (history.system.manager.event task) : Multiset Hash) ≤
      history.receiptsAtStake crypto := by
  have replaced := map_le_map (f := snd) (@planned_advance crypto history task access running)
  have moved :=
    congrArg (map fst) (@ShardSystem.inTransit_advance crypto history.system task access running)
  rw [map_add, map_add, settled_ids, created_ids] at moved
  rw [map_add] at replaced
  have credited : ((apply crypto (.advance task access) history).credited : Multiset Hash) =
      (credits (history.system.manager.event task) : Multiset Hash) + history.credited := by
    simp only [apply, event_advance running, ← coe_add]
  have system : (apply crypto (.advance task access) history).system =
      history.system.advance crypto task access := rfl
  rw [receiptsAtStake, credited, system]
  calc
    _ = ((apply crypto (.advance task access) history).planned crypto).map snd +
          (((history.system.advance crypto task access).inTransit crypto).map fst +
            ((credits (history.system.manager.event task) : Multiset Hash) +
              (abandons (history.system.manager.event task) : Multiset Hash))) +
                history.credited := by
        abel
    _ = ((apply crypto (.advance task access) history).planned crypto).map snd +
            (debits crypto (history.system.manager.event task) : Multiset (Hash × Hash)).map snd +
          (history.system.inTransit crypto).map fst + history.credited := by
        rw [moved]
        abel
    _ ≤ _ := add_le_add_left (add_le_add_left replaced _) _

theorem refundsAtStake_advance
    (refunded : receiptId ∈ (apply crypto (.advance task access) history).refundsAtStake crypto) :
    receiptId ∈ history.refundsAtStake crypto ∨
      receiptId ∈ abandons (history.system.manager.event task) ∨
      task = .timingOut ∧ ∃ refund ∈ history.system.manager.timedOutTxs access.iteration access.now,
        ShardManager.receiptIdOf crypto refund.1 refund.2 = receiptId := by
  have outcome := history.system.manager.outcome_advance crypto access task
  have recorded : ((apply crypto (.advance task access) history).refunded : Multiset Hash) =
      (refunds crypto (history.system.manager.event task) : Multiset Hash) + history.refunded := by
    simp only [apply, event_advance running, ← coe_add]
  rw [refundsAtStake, promised, tasks_advance running, recorded,
    Custody.replace, add_bind] at refunded
  simp only [mem_add] at refunded
  have found : receiptId ∈ (history.system.manager.advance crypto access task).2.bind
      (ShardTask.promised crypto) +
      (refunds crypto (history.system.manager.event task) : Multiset Hash) ∨
        receiptId ∈ history.refundsAtStake crypto := by
    rcases refunded with (promised | waiting) | made | earlier
    · exact .inl (mem_add.mpr (.inl promised))
    · obtain ⟨other, member, promised⟩ := mem_bind.mp waiting
      exact .inr (mem_add.mpr (.inl (mem_bind.mpr ⟨other, mem_of_mem_erase member, promised⟩)))
    · exact .inl (mem_add.mpr (.inr made))
    · exact .inr (mem_add.mpr (.inr earlier))
  rcases found with found | earlier
  · rcases outcome.refunds found with earlier | abandoned | late
    · exact .inl (mem_add.mpr (.inl (mem_bind.mpr ⟨task, running, earlier⟩)))
    · exact .inr (.inl abandoned)
    · exact .inr (.inr late)
  · exact .inl earlier

theorem Distinct.advance (distinct : history.Distinct crypto)
    (met : history.Orderly crypto (.advance task access)) :
    (apply crypto (.advance task access) history).Distinct crypto := by
  have receipts := @receiptsAtStake_advance crypto history task access running
  have fewer : (apply crypto (.advance task access) history).receiptsAtStake crypto ≤
      history.receiptsAtStake crypto :=
    (le_add_right _ _).trans receipts
  refine distinct.of_le (debitsAtStake_advance running) fewer fun receiptId refunded => ?_
  rcases refundsAtStake_advance running refunded with earlier | abandoned | ⟨rfl, refund, late, rfl⟩
  · exact .inl earlier
  · -- An abandoned receipt was at stake once, so it is not at stake any more.
    refine .inr fun present => ?_
    have apart := (nodup_add.mp (nodup_of_le receipts distinct.receipts)).2.2
    exact disjoint_left.mp apart present abandoned
  · exact .inr fun present => met refund late (mem_of_le fewer present)

end Advance

theorem Distinct.of_same (distinct : history.Distinct crypto)
    (planned : after.planned crypto = history.planned crypto)
    (promised : after.promised crypto = history.promised crypto)
    (transit : after.system.inTransit crypto = history.system.inTransit crypto)
    (debited : after.debited = history.debited) (credited : after.credited = history.credited)
    (refunded : after.refunded = history.refunded) : after.Distinct crypto := by
  refine distinct.of_le (le_of_eq ?_) (le_of_eq ?_) fun receiptId found => .inl ?_
  · rw [debitsAtStake, debitsAtStake, planned, debited]
  · rw [receiptsAtStake, receiptsAtStake, planned, transit, credited]
  · rwa [refundsAtStake, promised, refunded] at found

theorem Distinct.of_manager (distinct : history.Distinct crypto)
    (carried : manager.carried = history.system.manager.carried) :
    Distinct crypto { history with system := { history.system with manager } } :=
  distinct.of_same rfl rfl (by simp only [ShardSystem.inTransit, carried]) rfl rfl rfl

theorem Distinct.of_spawn (distinct : history.Distinct crypto)
    (plans : task.planned crypto = 0) (promises : task.promised crypto = 0)
    (transit : (spawn { history.system with manager } task).inTransit crypto =
      history.system.inTransit crypto) :
    Distinct crypto { history with system := spawn { history.system with manager } task } := by
  refine distinct.of_same ?_ ?_ transit rfl rfl rfl
  · simp only [planned, spawn, cons_bind, plans, zero_add]
  · simp only [promised, spawn, cons_bind, promises, zero_add]

/-- A call for a transaction that nothing was done about puts its debit and its receipt at stake. -/
theorem Distinct.call (distinct : history.Distinct crypto)
    (newDebit : txHash ∉ history.debitsAtStake crypto)
    (newReceipt : ShardManager.receiptIdOf crypto txHash crossTx ∉
      history.receiptsAtStake crypto + history.refundsAtStake crypto) :
    Distinct crypto { history with system := history.system.spawn (.called txHash crossTx) } := by
  set called : ShardHistory :=
    { history with system := history.system.spawn (.called txHash crossTx) }
  have plans : called.planned crypto = (txHash, ShardManager.receiptIdOf crypto txHash crossTx) ::ₘ
        history.planned crypto := by
    simp only [called, planned, spawn, cons_bind, ShardTask.planned, singleton_add]
  have promises : called.promised crypto = history.promised crypto := by
    simp only [called, promised, spawn, cons_bind, ShardTask.promised, zero_add]
  have transit : called.system.inTransit crypto = history.system.inTransit crypto := by
    simp only [called, inTransit_spawn, carried, add_zero]
  have debits : called.debitsAtStake crypto = txHash ::ₘ history.debitsAtStake crypto := by
    rw [debitsAtStake, plans, map_cons, cons_add]
    rfl
  have receipts : called.receiptsAtStake crypto =
      ShardManager.receiptIdOf crypto txHash crossTx ::ₘ history.receiptsAtStake crypto := by
    rw [receiptsAtStake, plans, transit, map_cons, cons_add, cons_add]
    rfl
  have refunds : called.refundsAtStake crypto = history.refundsAtStake crypto := by
    rw [refundsAtStake, promises]
    rfl
  rw [mem_add, not_or] at newReceipt
  refine ⟨?_, ?_, fun receiptId refunded => ?_⟩
  · rw [debits]
    exact nodup_cons.mpr ⟨newDebit, distinct.debits⟩
  · rw [receipts]
    exact nodup_cons.mpr ⟨newReceipt.1, distinct.receipts⟩
  · rw [refunds] at refunded
    rw [receipts, mem_cons, not_or]
    refine ⟨?_, distinct.refunds receiptId refunded⟩
    rintro rfl
    exact newReceipt.2 refunded

/-- A replay of receipts that nothing else was done about puts each of them at stake. -/
theorem Distinct.replay (distinct : history.Distinct crypto)
    (met : history.Orderly crypto (.replayWal accepting)) :
    (apply crypto (.replayWal accepting) history).Distinct crypto := by
  obtain ⟨logged, fresh⟩ := met
  obtain ⟨replayed, among, transit⟩ :=
    @ShardSystem.inTransit_replayWal crypto history.system accepting
  have ids : replayed.map fst ≤
      ((history.system.manager.wal.getD []).map Receipt.receiptId : Multiset Hash) := by
    have mapped := map_le_map (f := fst) among
    rwa [map_map] at mapped
  have receipts : (apply crypto (.replayWal accepting) history).receiptsAtStake crypto =
      history.receiptsAtStake crypto + replayed.map fst := by
    have system : (apply crypto (.replayWal accepting) history).system =
        history.system.apply crypto (.replayWal accepting) := rfl
    rw [receiptsAtStake, receiptsAtStake, system, transit, map_add]
    have planned : (apply crypto (.replayWal accepting) history).planned crypto =
        history.planned crypto := rfl
    rw [planned]
    abel
  have new {receiptId : Hash} (found : receiptId ∈ replayed.map fst) :
      receiptId ∉ history.receiptsAtStake crypto ∧ receiptId ∉ history.refundsAtStake crypto := by
    obtain ⟨receipt, member, rfl⟩ := List.mem_map.mp (mem_coe.mp (mem_of_le ids found))
    have absent := fresh receipt member
    rwa [mem_add, not_or] at absent
  refine ⟨distinct.debits, ?_, fun receiptId refunded => ?_⟩
  · rw [receipts, nodup_add]
    refine ⟨distinct.receipts, nodup_of_le ids (coe_nodup.mpr logged), ?_⟩
    exact disjoint_right.mpr fun found => (new found).1
  · rw [receipts, mem_add, not_or]
    exact ⟨distinct.refunds receiptId refunded, fun found => (new found).2 refunded⟩

theorem Distinct.crash (distinct : history.Distinct crypto) :
    (apply crypto .crash history).Distinct crypto := by
  have transit : (apply crypto .crash history).system.inTransit crypto = 0 :=
    ShardSystem.inTransit_crash
  refine distinct.of_le ?_ ?_ fun receiptId found => .inl ?_
  · exact le_add_left _ _
  · rw [receiptsAtStake, transit]
    exact le_add_left _ _
  · exact mem_add.mpr (.inr found)

theorem Distinct.apply (distinct : history.Distinct crypto) (met : history.Orderly crypto step) :
    (ShardHistory.apply crypto step history).Distinct crypto := by
  cases step with
  | addTransaction tx now => exact distinct.of_manager (ShardManager.carried_addTransaction crypto)
  | registerMined tx now => exact distinct.of_manager (ShardManager.carried_registerMined crypto)
  | processCrossShardTransaction txHash =>
    simp only [ShardHistory.apply, ShardSystem.apply, processCrossShardTransaction]
    split
    · rename_i crossTx found
      obtain ⟨newDebit, newReceipt⟩ := met crossTx found
      exact distinct.call newDebit newReceipt
    · exact distinct
  | sendStateSync accepting targetShard shardId blockNumber =>
    exact distinct.of_manager ShardManager.carried_sendStateSync
  | recv shardId =>
    have transit := @inTransit_recv crypto history.system shardId
    simp only [ShardHistory.apply, ShardSystem.apply]
    unfold recv at transit ⊢
    split
    · rename_i free
      rw [if_pos free] at transit
      split
      · exact distinct
      · rename_i message rest waiting
        simp only [waiting] at transit
        exact distinct.of_spawn (by cases message <;> rfl) (by cases message <;> rfl) transit
    · exact distinct
  | tick now =>
    have transit := @inTransit_tick crypto history.system now
    simp only [ShardHistory.apply, ShardSystem.apply]
    unfold tick at transit ⊢
    split
    · exact distinct
    · rename_i free
      rw [if_neg free] at transit
      exact distinct.of_spawn rfl rfl transit
  | advance task access =>
    by_cases running : task ∈ history.system.tasks
    · exact distinct.advance running met
    · simp only [ShardHistory.apply, ShardSystem.apply, ShardSystem.advance, event, if_neg running]
      exact distinct
  | replayWal accepting => exact distinct.replay met
  | crash => exact distinct.crash

/-- In every run of orderly steps, each transaction is debited at most once, each receipt is
credited at most once, and no transaction is both credited and refunded. -/
theorem exactlyOnce_of_orderly_run {manager : ShardManager}
    (quiet : (ShardSystem.start manager).inTransit crypto = 0) (steps : List ShardStep)
    (met : ∀ entry ∈ Run.visited (apply crypto) (start manager) steps,
      entry.1.Orderly crypto entry.2) :
    ∀ history ∈ Run.states (apply crypto) (start manager) steps, history.ExactlyOnce := by
  have initial : (start manager).Distinct crypto := by
    have receipts : (start manager).receiptsAtStake crypto = 0 := by
      have transit : (start manager).system.inTransit crypto = 0 := quiet
      rw [receiptsAtStake, transit]
      rfl
    refine ⟨nodup_zero, ?_, fun receiptId refunded => ?_⟩
    · rw [receipts]
      exact nodup_zero
    · exact absurd refunded (notMem_zero receiptId)
  intro history reached
  have distinct :=
    Run.invariant_states (fun _ _ kept met => Distinct.apply kept met) initial met history reached
  exact distinct.exactlyOnce

open ShardSystem (accessAt crossShardTransfer deliveredTransfer funded transferEntry transferRecord)

theorem deliveredTransfer_exactlyOnce :
    let last := Run.run (apply Crypto.sample) (start funded) deliveredTransfer
    last.ExactlyOnce ∧ last.debited = [crossShardTransfer.hash] ∧ last.credited =
      [transferEntry.receiptId] := by
  have met : ∀ entry ∈ Run.visited (apply Crypto.sample) (start funded) deliveredTransfer,
      entry.1.Orderly Crypto.sample entry.2 := by
    intro entry found
    simp only [deliveredTransfer, Run.visited_cons, Run.visited_nil, List.mem_cons,
      List.not_mem_nil, or_false] at found
    rcases found with
      rfl | rfl | rfl | rfl | rfl | rfl | rfl | rfl | rfl | rfl | rfl | rfl | rfl | rfl | rfl
    · trivial
    · intro crossTx registered
      have recorded :
          (funded.addTransaction Crypto.sample crossShardTransfer 0).crossShardTxs.lookup
          crossShardTransfer.hash = some transferRecord := by decide +kernel
      obtain rfl := Option.some.inj (registered.symm.trans recorded)
      decide +kernel
    all_goals trivial
  have quiet : (ShardSystem.start funded).inTransit Crypto.sample = 0 := by decide +kernel
  have last := exactlyOnce_of_orderly_run quiet deliveredTransfer met _ Run.run_mem_states
  exact ⟨last, by decide +kernel, by decide +kernel⟩

/-- Two calls for the transfer, both delivered, and a timeout before the first of them has set the
status. -/
def processedTwice : List ShardStep :=
  [.addTransaction crossShardTransfer 0, .processCrossShardTransaction crossShardTransfer.hash,
    .processCrossShardTransaction crossShardTransfer.hash,
    .advance (.called crossShardTransfer.hash transferRecord) (accessAt 299),
    .advance (.called crossShardTransfer.hash transferRecord) (accessAt 299),
    .advance (.checked crossShardTransfer.hash transferRecord) (accessAt 299),
    .advance (.checked crossShardTransfer.hash transferRecord) (accessAt 299),
    .advance (.debited crossShardTransfer.hash transferRecord) (accessAt 299),
    .advance (.debited crossShardTransfer.hash transferRecord) (accessAt 299), .recv 1,
    .advance (.processing 1 [transferEntry] []) (accessAt 299),
    .advance (.processing 1 [] [transferEntry]) (accessAt 299), .recv 1,
    .advance (.processing 1 [transferEntry] []) (accessAt 299),
    .advance (.processing 1 [] [transferEntry]) (accessAt 299), .sendStateSync true 1 0 0, .recv 1,
    .advance (.recording 1 0 0) (accessAt 299), .advance (.draining 1) (accessAt 299),
    .advance (.processing 1 [transferEntry, transferEntry] []) (accessAt 299),
    .advance (.crediting 1 transferEntry [transferEntry] []) (accessAt 299),
    .advance (.processing 1 [transferEntry] []) (accessAt 299),
    .advance (.crediting 1 transferEntry [] []) (accessAt 299), .tick (300 * Instant.second),
    .advance (.retrying (300 * Instant.second) []) (accessAt 300),
    .advance .timingOut (accessAt 300),
    .advance (.timeoutRefunding [(crossShardTransfer.hash, transferRecord)]) (accessAt 300)]

/-- The transfer is debited twice, its receipt is credited twice, and it is refunded as well. -/
theorem processedTwice_not_exactlyOnce :
    let last := Run.run (apply Crypto.sample) (start funded) processedTwice
    ¬ last.ExactlyOnce ∧ ¬ last.debited.Nodup ∧ ¬ last.credited.Nodup ∧
      transferEntry.receiptId ∈ last.refunded ∧ transferEntry.receiptId ∈ last.credited := by
  intro last
  have debited : ¬ last.debited.Nodup := by decide +kernel
  refine ⟨fun once => debited once.debits, debited, ?_, ?_, ?_⟩ <;> decide +kernel

end ShardHistory

end IronDag
