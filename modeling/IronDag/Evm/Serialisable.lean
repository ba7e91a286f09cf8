import IronDag.Evm.Parallel
import IronDag.Evm.StateSnapshot
import IronDag.Lib.Vec

namespace IronDag

open Commutation List Transaction

namespace DependencyGraph

theorem not_overlaps {left right : AccessSet} (disjoint : left.overlaps right = false)
    (inLeft : address ∈ left.addresses) : address ∉ right.addresses := by
  intro inRight
  rw [AccessSet.overlaps, Bool.or_eq_false_iff, decide_eq_false_iff_not] at disjoint
  exact disjoint.1 ⟨address, inLeft, inRight⟩

theorem sender_mem_writes {tx : Transaction} :
    tx.from ∈ (analyzeTransaction tx).writeSet.addresses := by
  unfold analyzeTransaction
  dsimp only
  split
  · split <;> split <;> simp [AccessSet.insert]
  · split <;> simp [AccessSet.insert]

theorem recipient_mem_writes (paid : tx.value ≠ 0) :
    tx.to ∈ (analyzeTransaction tx).writeSet.addresses := by
  have positive : 0 < tx.value := by
    exact Nat.pos_of_ne_zero fun zero => paid (BitVec.eq_of_toNat_eq zero)
  unfold analyzeTransaction
  split
  · split <;> simp [AccessSet.insert]
  · simp [AccessSet.insert]

theorem apart_of_not_conflicts
    (free : conflicts (analyzeTransaction second) (analyzeTransaction first) = false) :
    StateSnapshot.Apart first second := by
  rw [conflicts, Bool.or_eq_false_iff, Bool.or_eq_false_iff] at free
  have disjoint : ∀ address ∈ (analyzeTransaction second).writeSet.addresses,
      address ∉ (analyzeTransaction first).writeSet.addresses :=
    fun address => not_overlaps free.1.2
  refine ⟨⟨?_, ?_⟩, ⟨?_, ?_⟩, ?_⟩
  · intro same
    exact disjoint _ sender_mem_writes (same ▸ sender_mem_writes)
  · intro same
    by_contra paid
    exact disjoint _ sender_mem_writes (same ▸ recipient_mem_writes paid)
  · intro same
    exact disjoint _ sender_mem_writes (same ▸ sender_mem_writes)
  · intro same
    by_contra paid
    exact disjoint _ (recipient_mem_writes paid) (same ▸ sender_mem_writes)
  · intro same
    by_contra both
    rw [not_or] at both
    exact disjoint _ (recipient_mem_writes both.2) (same ▸ recipient_mem_writes both.1)

/-- The table holds the accesses of the transaction under its hash. -/
def Described (dependencies : Table Hash TransactionDependency) (tx : Transaction) : Prop :=
  ∃ dependency, dependencies.lookup tx.hash = some dependency ∧
    dependency.readSet = (analyzeTransaction tx).readSet ∧
    dependency.writeSet = (analyzeTransaction tx).writeSet

theorem Described.conflictsWith {dependencies : Table Hash TransactionDependency}
    (left : Described dependencies later) (right : Described dependencies earlier) :
    DependencyGraph.conflictsWith dependencies later.hash earlier.hash =
      some (conflicts (analyzeTransaction later) (analyzeTransaction earlier)) := by
  obtain ⟨first, found, reads, writes⟩ := left
  obtain ⟨second, also, otherReads, otherWrites⟩ := right
  simp [DependencyGraph.conflictsWith, found, also, conflicts, reads, writes,
    otherReads, otherWrites]

theorem Described.waiting {dependencies : Table Hash TransactionDependency} {hash : Hash}
    (found : dependencies.lookup hash = some dependency)
    (awaited : List Hash) (described : Described dependencies tx) :
    Described (dependencies.insert hash { dependency with dependsOn := awaited }) tx := by
  obtain ⟨own, looked, accesses⟩ := described
  by_cases same : tx.hash = hash
  · rw [same, found] at looked
    cases looked
    exact ⟨{ dependency with dependsOn := awaited },
      by rw [Table.lookup_write, if_pos same], accesses⟩
  · exact ⟨own, by rw [Table.lookup_write, if_neg same, looked], accesses⟩

/-- What the transaction at the end of `earlier` has to wait for. -/
def awaitedBy (tx : Transaction) (earlier : List Transaction) : List Hash :=
  (earlier.filter fun other =>
    conflicts (analyzeTransaction tx) (analyzeTransaction other)).map hash

/-- After the second pass every transaction waits for exactly the earlier ones it conflicts with. -/
theorem buildFrom_spec {earlier later : List Transaction}
    {dependencies : Table Hash TransactionDependency}
    (distinct : ((earlier ++ later).map hash).Nodup)
    (described : ∀ tx ∈ earlier ++ later, Described dependencies tx) :
    ∃ built, buildFrom (earlier.map hash) (later.map hash) dependencies = some built ∧
      (∀ hash ∉ later.map Transaction.hash, built.lookup hash = dependencies.lookup hash) ∧
      ∀ front tx back, later = front ++ tx :: back →
        ∃ dependency, built.lookup tx.hash = some dependency ∧
          dependency.dependsOn = awaitedBy tx (earlier ++ front) := by
  induction later generalizing earlier dependencies with
  | nil =>
    refine ⟨dependencies, rfl, fun _ _ => rfl, ?_⟩
    intro front tx back split
    cases front <;> cases split
  | cons tx rest ih =>
    have own : Described dependencies tx := described tx (by simp)
    have waits : (earlier.map hash).filterM (conflictsWith dependencies tx.hash) =
        some (awaitedBy tx earlier) :=
      Vec.filterM_map_eq_some fun other among =>
        own.conflictsWith (described other (mem_append_left _ among))
    obtain ⟨dependency, found, _⟩ := own
    rw [append_cons] at distinct described
    have fresh : tx.hash ∉ rest.map hash := by
      rw [map_append, nodup_append] at distinct
      exact fun repeated => distinct.2.2 _ (by simp) _ repeated rfl
    obtain ⟨built, done, untouched, specified⟩ :=
      ih distinct fun other among => (described other among).waiting found (awaitedBy tx earlier)
    refine ⟨built, ?_, ?_, ?_⟩
    · simpa [buildFrom, waits, found] using done
    · intro hash absent
      rw [map_cons, mem_cons, not_or] at absent
      rw [untouched hash absent.2, Table.lookup_write, if_neg absent.1]
    · intro front other back split
      cases front with
      | nil =>
        cases split
        exact ⟨_, by rw [untouched _ fresh, Table.lookup_write, if_pos rfl], by simp⟩
      | cons first front =>
        cases split
        simpa using specified front other back rfl

/-- The graph of a list of transactions once both passes are done. -/
structure Analysed (graph : DependencyGraph) (transactions : List Transaction) : Prop where
  same : graph.transactions = transactions
  found : ∀ tx ∈ transactions, graph.getTransaction tx.hash = some tx
  waits : ∀ front tx back, transactions = front ++ tx :: back →
    ∃ dependency, graph.dependencies.lookup tx.hash = some dependency ∧
      dependency.dependsOn = awaitedBy tx front

variable {graph : DependencyGraph} {transactions : List Transaction}

theorem getTransaction_new (distinct : (transactions.map hash).Nodup)
    (among : tx ∈ transactions) : (new transactions).getTransaction tx.hash = some tx := by
  obtain ⟨position, placed⟩ := mem_iff_getElem?.mp among
  have entry : (tx, position) ∈ transactions.zipIdx := mem_zipIdx_iff_getElem?.mpr placed
  have keys : (transactions.zipIdx.map fun entry => entry.1.hash) = transactions.map hash := by
    rw [← zipIdx_map_fst 0 transactions, map_map, zipIdx_map_fst]
    rfl
  have found : (Positions.enter hash ∅ transactions.zipIdx).lookup tx.hash = some position :=
    Positions.lookup_enter (keys ▸ distinct) entry
  simp only [getTransaction, new]
  rw [found]
  exact placed

theorem analyze_new (distinct : (transactions.map hash).Nodup) :
    ∃ graph, (new transactions).analyze = some graph ∧ graph.Analysed transactions := by
  let entries := transactions.map fun tx => (tx, analyzeTransaction tx)
  have keys : (entries.map fun entry => entry.1.hash) = transactions.map hash := by
    rw [map_map]
    rfl
  have described : ∀ tx ∈ transactions, Described (Positions.enter hash ∅ entries) tx := by
    intro tx among
    have entry : (tx, analyzeTransaction tx) ∈ entries := mem_map_of_mem among
    exact ⟨_, Positions.lookup_enter (keys ▸ distinct) entry, rfl, rfl⟩
  obtain ⟨built, done, _, specified⟩ := @buildFrom_spec [] transactions _ distinct described
  refine ⟨{ new transactions with dependencies := built }, ?_, rfl, ?_, specified⟩
  · exact congrArg
      (Option.bind · fun built => some { new transactions with dependencies := built }) done
  · exact fun tx among => getTransaction_new distinct among

/-- The transaction with this hash has to wait for the other one. -/
def Awaits (graph : DependencyGraph) (txHash awaited : Hash) : Prop :=
  ∃ dependency, graph.dependencies.lookup txHash = some dependency ∧ awaited ∈ dependency.dependsOn

def ready (graph : DependencyGraph) (executed : Finset Hash) (txHash : Hash) : Bool :=
  match graph.dependencies.lookup txHash with
  | some dependency => dependency.dependsOn.all fun awaited => decide (awaited ∈ executed)
  | none => false

/-- The transactions still to run are distinct, in an order in which each comes after what it
waits for. -/
structure Queued (graph : DependencyGraph) (executed : Finset Hash) (remaining : List Hash) :
    Prop where
  known : ∀ txHash ∈ remaining, ∃ dependency, graph.dependencies.lookup txHash = some dependency
  fresh : ∀ txHash ∈ remaining, txHash ∉ executed
  nodup : remaining.Nodup
  after : ∀ txHash ∈ remaining, ∀ awaited, graph.Awaits txHash awaited → awaited ∉ executed →
    Before remaining awaited txHash

theorem readyBatch_eq
    (known : ∀ txHash ∈ remaining, ∃ dependency, graph.dependencies.lookup txHash = some dependency)
    (fresh : ∀ txHash ∈ remaining, txHash ∉ executed) :
    graph.readyBatch executed remaining = some (remaining.filter (graph.ready executed)) := by
  induction remaining with
  | nil => rfl
  | cons txHash rest ih =>
    have later := ih (fun other among => known other (mem_cons_of_mem _ among))
      fun other among => fresh other (mem_cons_of_mem _ among)
    obtain ⟨dependency, found⟩ := known txHash mem_cons_self
    have waiting := fresh txHash mem_cons_self
    have same : graph.ready executed txHash = dependency.dependsOn.all fun awaited =>
        decide (awaited ∈ executed) := by
      rw [ready, found]
    rw [readyBatch, if_neg waiting, found, later, filter_cons, same]
    simp only [Option.bind_eq_bind, Option.bind_some]
    split <;> rfl

theorem ready_iff (known : ∃ dependency, graph.dependencies.lookup txHash = some dependency) :
    graph.ready executed txHash = true ↔ ∀ awaited, graph.Awaits txHash awaited →
      awaited ∈ executed := by
  obtain ⟨dependency, found⟩ := known
  simp [ready, Awaits, found]

/-- The first transaction of the queue is always ready, so no batch falls back to it. -/
theorem Queued.nextBatch (queued : graph.Queued executed (first :: others)) :
    first ∈ (first :: others).filter (graph.ready executed) ∧
      graph.nextBatch executed (first :: others) =
        some ((first :: others).filter (graph.ready executed)) := by
  have isReady : graph.ready executed first = true := by
    rw [ready_iff (queued.known first mem_cons_self)]
    intro awaited waits
    by_contra unexecuted
    exact not_before_head queued.nodup awaited
      (queued.after first mem_cons_self awaited waits unexecuted)
  have member : first ∈ (first :: others).filter (graph.ready executed) :=
    mem_filter.mpr ⟨mem_cons_self, isReady⟩
  refine ⟨member, ?_⟩
  rw [DependencyGraph.nextBatch, readyBatch_eq queued.known queued.fresh]
  simp [ne_nil_of_mem member]

theorem Queued.filter (queued : graph.Queued executed remaining) (more : executed ⊆ grown) :
    graph.Queued grown (remaining.filter fun txHash => decide (txHash ∉ grown)) where
  known txHash among := queued.known txHash (mem_of_mem_filter among)
  fresh txHash among := of_decide_eq_true (mem_filter.mp among).2
  nodup := queued.nodup.filter _
  after := by
    intro txHash among awaited waits unexecuted
    obtain ⟨waiting, kept⟩ := mem_filter.mp among
    have before := queued.after txHash waiting awaited waits fun early => unexecuted (more early)
    have filtered := before.filter fun txHash => decide (txHash ∉ grown)
    simpa [Before, unexecuted, of_decide_eq_true kept] using filtered

/-- Enough rounds group all the remaining transactions, each after what it waits for. -/
theorem groupRounds_spec (enough : remaining.length ≤ rounds)
    (queued : graph.Queued executed remaining) (recorded : ∀ txHash ∈ executed, txHash ∈ done) :
    ∃ batches, graph.groupRounds rounds executed remaining = some batches ∧
      batches.flatten.Perm remaining ∧ Staged graph.Awaits done batches := by
  induction rounds generalizing executed remaining done with
  | zero =>
    rw [eq_nil_of_length_eq_zero (Nat.le_zero.mp enough)]
    exact ⟨[], rfl, Perm.refl _, trivial⟩
  | succ rounds ih =>
    cases remaining with
    | nil => exact ⟨[], rfl, Perm.refl _, trivial⟩
    | cons first others =>
      obtain ⟨member, batched⟩ := queued.nextBatch
      let batch := (first :: others).filter (graph.ready executed)
      let grown := executed ∪ batch.toFinset
      have left : (first :: others).filter (fun txHash => decide (txHash ∉ grown)) =
          (first :: others).filter fun txHash => !graph.ready executed txHash := by
        apply filter_congr
        intro txHash among
        have unexecuted := queued.fresh txHash among
        cases isReady : graph.ready executed txHash <;>
          simp [grown, batch, unexecuted, isReady, mem_cons.mp among]
      have executedFirst : first ∈ grown := Finset.mem_union_right _ (mem_toFinset.mpr member)
      have shorter : ((first :: others).filter fun txHash => decide (txHash ∉ grown)).length ≤
          rounds := by
        have dropped : ((first :: others).filter fun txHash => decide (txHash ∉ grown)).length <
            (first :: others).length :=
          length_filter_lt_length_iff_exists.mpr ⟨first, mem_cons_self, by simp [executedFirst]⟩
        omega
      have noted : ∀ txHash ∈ grown, txHash ∈ done ++ batch := by
        intro txHash among
        rcases Finset.mem_union.mp among with early | now
        · exact mem_append_left _ (recorded txHash early)
        · exact mem_append_right _ (mem_toFinset.mp now)
      obtain ⟨batches, grouped, same, staged⟩ :=
        ih shorter (queued.filter Finset.subset_union_left) noted
      refine ⟨batch :: batches, ?_, ?_, ?_, staged⟩
      · simp only [groupRounds, batched, Option.bind_eq_bind, Option.bind_some]
        rw [grouped]
        rfl
      · refine (same.append_left batch).trans ?_
        rw [left]
        exact filter_append_perm _ _
      · intro txHash among awaited waits
        obtain ⟨waiting, isReady⟩ := mem_filter.mp among
        exact recorded awaited ((ready_iff (queued.known txHash waiting)).mp isReady awaited waits)

section

variable (analysed : graph.Analysed transactions) (distinct : (transactions.map hash).Nodup)

include analysed distinct

/-- Waiting is for earlier transactions, so the list itself is a queue. -/
theorem Analysed.queued : graph.Queued ∅ (transactions.map hash) where
  known txHash among := by
    obtain ⟨tx, present, rfl⟩ := mem_map.mp among
    obtain ⟨front, back, split⟩ := append_of_mem present
    obtain ⟨dependency, found, _⟩ := analysed.waits front tx back split
    exact ⟨dependency, found⟩
  fresh _ _ := Finset.notMem_empty _
  nodup := distinct
  after txHash among awaited waits _ := by
    obtain ⟨tx, present, rfl⟩ := mem_map.mp among
    obtain ⟨front, back, split⟩ := append_of_mem present
    obtain ⟨dependency, found, depends⟩ := analysed.waits front tx back split
    obtain ⟨twin, again, listed⟩ := waits
    cases found.symm.trans again
    rw [depends] at listed
    obtain ⟨other, earlier, rfl⟩ := mem_map.mp listed
    rw [split, map_append]
    exact before_of_mem (mem_map_of_mem (mem_of_mem_filter earlier)) (by simp)

theorem Analysed.groupParallelBatches : ∃ batches, graph.groupParallelBatches = some batches ∧
      batches.flatten.Perm (transactions.map hash) ∧ Staged graph.Awaits [] batches := by
  rw [DependencyGraph.groupParallelBatches, analysed.same]
  refine groupRounds_spec ?_ (analysed.queued distinct) ?_
  · rw [length_map]
  · intro txHash among
    exact absurd among (Finset.notMem_empty _)

end

/-- Runs the batches one after the other, each in the order given. -/
def executeBatches (graph : DependencyGraph) (snapshot : StateSnapshot)
    (batches : List (List Hash)) : StateSnapshot × List (Transaction × Except SnapshotError Unit) :=
  runAll StateSnapshot.applyTransaction snapshot (batches.flatten.filterMap graph.getTransaction)

def executeInOrder (snapshot : StateSnapshot) (transactions : List Transaction) :
    StateSnapshot × List (Transaction × Except SnapshotError Unit) :=
  runAll StateSnapshot.applyTransaction snapshot transactions

theorem Analysed.filterMap (analysed : graph.Analysed transactions) :
    (transactions.map hash).filterMap graph.getTransaction = transactions := by
  rw [filterMap_map]
  conv_rhs => rw [← filterMap_some (l := transactions)]
  exact filterMap_congr fun tx among => analysed.found tx among

/-- The order of two transactions that are not independent is the same in the batches. -/
theorem Analysed.kept (analysed : graph.Analysed transactions)
    (staged : Staged graph.Awaits [] batches) (shuffled : Forall₂ Perm orders batches)
    (complete : batches.flatten.Perm (transactions.map hash)) (first second : Transaction)
    (before : Before transactions first second)
    (moved : ¬ Before (orders.flatten.filterMap graph.getTransaction) first second) :
    Independent StateSnapshot.applyTransaction first second := by
  by_cases free : conflicts (analyzeTransaction second) (analyzeTransaction first) = false
  · exact StateSnapshot.independent_of_apart (apart_of_not_conflicts free)
  · exfalso
    obtain ⟨early, late, joined, firstIn, secondIn⟩ := cons_sublist_iff.mp before
    obtain ⟨middle, back, rfl⟩ := append_of_mem (singleton_sublist.mp secondIn)
    rw [← append_assoc] at joined
    obtain ⟨dependency, found, depends⟩ := analysed.waits (early ++ middle) second back joined
    have waits : graph.Awaits second.hash first.hash := by
      refine ⟨dependency, found, ?_⟩
      rw [depends]
      refine mem_map_of_mem (mem_filter.mpr ⟨mem_append_left _ firstIn, ?_⟩)
      exact Bool.not_eq_false _ ▸ free
    have secondPresent : second ∈ transactions := before.subset (by simp)
    have firstPresent : first ∈ transactions := before.subset (by simp)
    have listed : second.hash ∈ orders.flatten :=
      ((flatten_perm_of_shuffled shuffled).trans complete).mem_iff.mpr
        (mem_map_of_mem secondPresent)
    have ordered := (staged.before shuffled listed waits).filterMap graph.getTransaction
    simp only [nil_append, filterMap_cons, analysed.found first firstPresent,
      analysed.found second secondPresent, filterMap_nil] at ordered
    exact moved ordered

/-- Parallel execution is serialisable. The analysis and the grouping return, the batches hold every
transaction exactly once, and running them, whatever the order inside each batch, ends in the
snapshot of the original order and gives every transaction the result it has there. -/
theorem parallelBatches_serialisable (transactions : List Transaction)
    (distinct : (transactions.map hash).Nodup) :
    ∃ graph batches, (new transactions).analyze = some graph ∧
      graph.groupParallelBatches = some batches ∧ batches.flatten.Perm (transactions.map hash) ∧
      ∀ snapshot orders, Forall₂ Perm orders batches →
        (graph.executeBatches snapshot orders).1 = (executeInOrder snapshot transactions).1 ∧
        (graph.executeBatches snapshot orders).2.Perm (executeInOrder snapshot transactions).2 := by
  obtain ⟨graph, analyzed, analysed⟩ := analyze_new distinct
  obtain ⟨batches, grouped, complete, staged⟩ := analysed.groupParallelBatches distinct
  refine ⟨graph, batches, analyzed, grouped, complete, ?_⟩
  intro snapshot orders shuffled
  have same :=
    (((flatten_perm_of_shuffled shuffled).trans complete).filterMap graph.getTransaction).symm
  rw [analysed.filterMap] at same
  have nodup : (orders.flatten.filterMap graph.getTransaction).Nodup :=
    same.nodup_iff.mp (Nodup.of_map hash distinct)
  obtain ⟨state, answers⟩ :=
    runAll_of_reordered nodup same (analysed.kept staged shuffled complete) snapshot
  exact ⟨state.symm, answers.symm⟩

/-- Two payments to one recipient, the second of which the recipient spends at once, and a payment
that touches none of them. -/
def relayedPayments : List Transaction :=
  [Transaction.new Crypto.sample 1 2 10 1 0, Transaction.new Crypto.sample 3 2 20 1 0,
    Transaction.new Crypto.sample 2 4 25 1 0, Transaction.new Crypto.sample 5 6 1 1 0]

theorem relayedPayments_serialisable :
    ∃ graph batches, (new relayedPayments).analyze = some graph ∧
      graph.groupParallelBatches = some batches ∧
      batches.flatten.Perm (relayedPayments.map Transaction.hash) ∧
      ∀ snapshot orders, Forall₂ Perm orders batches →
        (graph.executeBatches snapshot orders).1 = (executeInOrder snapshot relayedPayments).1 ∧
        (graph.executeBatches snapshot orders).2.Perm (executeInOrder snapshot relayedPayments).2 :=
  parallelBatches_serialisable relayedPayments (by decide +kernel)

open StateSnapshot

/-- The batches, whatever is in them and in which order, pay nothing out but the fees and what is
burned. -/
theorem executeBatches_conserves (graph : DependencyGraph) (batches : List (List Hash))
    (snapshot : StateSnapshot) (bounded : total snapshot.balances + 1 < 2 ^ 128) :
    total (graph.executeBatches snapshot batches).1.balances +
      ((graph.executeBatches snapshot batches).2.map taken).sum = total snapshot.balances := by
  unfold executeBatches
  induction batches.flatten.filterMap graph.getTransaction generalizing snapshot with
  | nil => exact Nat.add_zero _
  | cons tx rest ih =>
    have once := total_applyTransaction bounded tx
    have later := ih (snapshot.applyTransaction tx).1 (by omega)
    simp only [Commutation.runAll, List.map_cons, List.sum_cons]
    omega

theorem relayedPayments_conserve :
    let funded : StateSnapshot := ⟨Table.modifyD ∅ 1 0 fun _ => 100, ∅, 0, 0⟩
    let executed :=
      (new relayedPayments).executeBatches funded [relayedPayments.map Transaction.hash]
    total executed.1.balances + (executed.2.map taken).sum = (100 : U128).toNat :=
  (executeBatches_conserves _ _ _
    (lt_of_eq_of_lt (congrArg (· + 1) (total_single 1 100)) (by decide))).trans (total_single 1 100)

end DependencyGraph

end IronDag
