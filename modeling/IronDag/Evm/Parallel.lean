import IronDag.Chain.Transaction
import IronDag.Lib.Positions

namespace IronDag

/-- What a transaction reads, or what it writes: addresses, and storage slots of contracts. -/
structure AccessSet where
  addresses : Finset Address
  storageKeys : Table Address (Finset (BitVec 256))
  deriving DecidableEq

def AccessSet.empty : AccessSet where
  addresses := ∅
  storageKeys := ∅

structure TransactionDependency where
  txHash : Hash
  readSet : AccessSet
  writeSet : AccessSet
  dependsOn : List Hash
  deriving DecidableEq

structure DependencyGraph where
  transactions : List Transaction
  dependencies : Table Hash TransactionDependency
  txIndex : Table Hash ℕ

namespace AccessSet

def insert (accesses : AccessSet) (address : Address) : AccessSet :=
  { accesses with addresses := Insert.insert address accesses.addresses }

/-- Some address, or some slot of one contract, is in both sets. -/
def overlaps (left right : AccessSet) : Bool :=
  decide (∃ address ∈ left.addresses, address ∈ right.addresses) ||
    decide (∃ address ∈ left.storageKeys.keys, ∃ key ∈ left.storageKeys.getD address ∅,
      key ∈ right.storageKeys.getD address ∅)

end AccessSet

namespace DependencyGraph

def new (transactions : List Transaction) : DependencyGraph where
  transactions := transactions
  dependencies := ∅
  txIndex := Positions.enter Transaction.hash ∅ transactions.zipIdx

def analyzeTransaction (tx : Transaction) : TransactionDependency :=
  let writesSender := AccessSet.empty.insert tx.from
  let (reads, writes) :=
    if 0 < tx.value then (AccessSet.empty.insert tx.to, writesSender.insert tx.to)
    else (AccessSet.empty, writesSender)
  let (reads, writes) :=
    if tx.data ≠ [] then
      -- A deployment writes the account of its sender, a call the account of its target.
      if tx.to = Address.zero then (reads, writes.insert tx.from)
      else (reads.insert tx.to, writes.insert tx.to)
    else (reads, writes)
  { txHash := tx.hash, readSet := reads, writeSet := writes, dependsOn := [] }

def hasReadWriteConflict (readSet writeSet : AccessSet) : Bool :=
  readSet.overlaps writeSet

def hasWriteWriteConflict (left right : AccessSet) : Bool :=
  left.overlaps right

def hasWriteReadConflict (writeSet readSet : AccessSet) : Bool :=
  hasReadWriteConflict readSet writeSet

def conflicts (left right : TransactionDependency) : Bool :=
  hasReadWriteConflict left.readSet right.writeSet ||
    hasWriteWriteConflict left.writeSet right.writeSet ||
    hasWriteReadConflict left.writeSet right.readSet

/-- Whether the transaction `later` conflicts with `earlier`. -/
def conflictsWith (dependencies : Table Hash TransactionDependency) (later earlier : Hash) :
    Option Bool := do
  let left ← dependencies.lookup later
  let right ← dependencies.lookup earlier
  return conflicts left right

/-- The second pass from the transaction after `earlier` on. -/
def buildFrom (earlier : List Hash) :
    List Hash → Table Hash TransactionDependency → Option (Table Hash TransactionDependency)
  | [], dependencies => some dependencies
  | txHash :: later, dependencies => do
      let deps ← earlier.filterM (conflictsWith dependencies txHash)
      let updated := match dependencies.lookup txHash with
        | some dependency => dependencies.insert txHash { dependency with dependsOn := deps }
        | none => dependencies
      buildFrom (earlier ++ [txHash]) later updated

def buildDependencies (graph : DependencyGraph) : Option DependencyGraph := do
  let dependencies ← buildFrom [] (graph.transactions.map Transaction.hash) graph.dependencies
  return { graph with dependencies := dependencies }

/-- Both passes: the accesses of each transaction, then what it has to wait for. -/
def analyze (graph : DependencyGraph) : Option DependencyGraph :=
  buildDependencies
    { graph with
      dependencies := Positions.enter Transaction.hash graph.dependencies
        (graph.transactions.map fun tx => (tx, analyzeTransaction tx)) }

def getTransaction (graph : DependencyGraph) (hash : Hash) : Option Transaction := do
  let position ← graph.txIndex.lookup hash
  graph.transactions[position]?

/-- The transactions among `remaining` all of whose dependencies are executed. -/
def readyBatch (graph : DependencyGraph) (executed : Finset Hash) : List Hash → Option (List Hash)
  | [] => some []
  | txHash :: remaining => do
      if txHash ∈ executed then
        readyBatch graph executed remaining
      else
        let dependency ← graph.dependencies.lookup txHash
        let batch ← readyBatch graph executed remaining
        if dependency.dependsOn.all fun awaited => decide (awaited ∈ executed) then
          return txHash :: batch
        else
          return batch

/-- Where no transaction is ready the first remaining one is executed. -/
def nextBatch (graph : DependencyGraph) (executed : Finset Hash) (remaining : List Hash) :
    Option (List Hash) := do
  let batch ← readyBatch graph executed remaining
  return if batch = [] then remaining.take 1 else batch

/-- The loop of `group_parallel_batches`, for at most `rounds` rounds. -/
def groupRounds (graph : DependencyGraph) : ℕ → Finset Hash → List Hash → Option (List (List Hash))
  | _, _, [] => some []
  | 0, _, _ :: _ => none
  | rounds + 1, executed, first :: others => do
      let batch ← nextBatch graph executed (first :: others)
      let executed := executed ∪ batch.toFinset
      let batches ← groupRounds graph rounds executed
        ((first :: others).filter fun txHash => decide (txHash ∉ executed))
      return batch :: batches

/-- Every round executes at least one transaction, so there are at most as many rounds as
transactions. -/
def groupParallelBatches (graph : DependencyGraph) : Option (List (List Hash)) :=
  groupRounds graph graph.transactions.length ∅ (graph.transactions.map Transaction.hash)

end DependencyGraph

end IronDag
