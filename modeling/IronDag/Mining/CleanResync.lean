import IronDag.Chain.Conservation
import IronDag.Chain.Resync
import IronDag.Chain.Twin
import IronDag.Mining.Lockstep

namespace IronDag

open StateDatabase Blockchain GhostDag Transaction

open Fallible (Matches)

/-- An executor over the same kind of store, before its first block. -/
def EvmExecutor.fresh (executor : EvmExecutor) : EvmExecutor where
  state := EvmState.empty
  persistent := executor.persistent
  blockHashes := []

/-- A DAG with the same configuration over an empty database. -/
def GhostDag.fresh (dag : GhostDag) : GhostDag :=
  { new (dag.storage.database.map fun _ => DagDatabase.empty) with
    storage :=
      { DagStorage.new (dag.storage.database.map fun _ => DagDatabase.empty) with
        hotCacheSize := dag.storage.hotCacheSize
        confirmationsForCheckpoint := dag.storage.confirmationsForCheckpoint } }

namespace Blockchain

/-- The node as it is created and set up over an empty database. -/
def fresh (chain : Blockchain) : Blockchain :=
  { new with
    database := chain.database.map fun _ => empty
    verkleState := chain.verkleState.map fun _ => ∅
    evmEnabled := chain.evmEnabled
    evmExecutor := chain.evmExecutor.map EvmExecutor.fresh
    walletRegistry := chain.walletRegistry.map fun _ => ∅
    privacyManager := chain.privacyManager.map fun manager => { manager with nullifiers := ∅ }
    chainId := chain.chainId
    ghostdag := chain.ghostdag.map GhostDag.fresh
    recurringManager := chain.recurringManager.map fun _ => ∅
    zkVerifyingKey := chain.zkVerifyingKey
    zkEnforce := chain.zkEnforce }

/-- What later calls, lookups and the next restart read. -/
structure Observations where
  balances : Address → U128
  nonces : Address → U64
  blockByHash : Hash → Except ChainFault (Option Block)
  blockByNumber : U64 → Except ChainFault (Option Block)
  transactionByHash : Hash → Except ChainFault (Option (Block × Transaction × Nat))
  tips : SetIteration Hash → Nat → Option (List Hash)
  checkpoint : Option (Option Hash × Finset Hash × Table Hash U64 × List Hash)
  /-- The blocks, the replay and double-spend records, the database, the DAG, the executor, the
  registries and the settings. -/
  rest : Blockchain

/-- The chain without the places of its accounts and the positions in its list of blocks, which are
read through the other observations. -/
def rest (chain : Blockchain) : Blockchain :=
  { chain with
    accounts := ∅
    verkleState := none
    blocks := { chain.blocks with blockByHash := ∅, blockByNumber := ∅, txByHash := ∅ } }

def observe (chain : Blockchain) : Observations where
  balances := chain.getBalance
  nonces := chain.getNonce
  blockByHash := chain.getBlockByHash
  blockByNumber := chain.getBlockByNumber
  transactionByHash := chain.getTransactionByHash
  tips := fun iteration k => chain.ghostdag.map fun dag => dag.getTips iteration k
  checkpoint := chain.ghostdag.bind fun dag => dag.storage.loadCheckpoint
  rest := chain.rest

/-- Nothing tells the node from the other one, now or after any sequence of calls that the other one
accepts. -/
structure Indistinguishable (host : Host) (chain other : Blockchain) : Prop where
  observations : chain.observe = other.observe
  accepted : ∀ steps,
    (∀ entry ∈ Run.visited (Step.apply host) other steps, entry.2.ReturnsOk host entry.1) →
    (∀ entry ∈ Run.visited (Step.apply host) chain steps, entry.2.ReturnsOk host entry.1) ∧
      (Run.run (Step.apply host) chain steps).observe =
        (Run.run (Step.apply host) other steps).observe

/-- What clearing leaves alone holds nothing. -/
structure NothingLeft (chain : Blockchain) : Prop where
  accounts : chain.verkleState = none → ∀ address account,
    chain.accounts.lookup address = some account → account = { balance := 0, nonce := 0 }
  verkleState : ∀ verkle, chain.verkleState = some verkle → ∀ address,
    verkle.account address = { balance := 0, nonce := 0 }
  textualKeys : ∀ database, chain.database = some database → database.legacyBalances = ∅ ∧
    database.legacyNonces = ∅ ∧ database.legacyContracts = ∅ ∧ database.legacyStorage = ∅
  indexes : chain.blocks.blockByHash = ∅ ∧ chain.blocks.blockByNumber = ∅ ∧
    chain.blocks.txByHash = ∅
  recentTxHashes : chain.recentTxHashes = []
  checkpoint : ∀ dag database, chain.ghostdag = some dag → dag.storage.database = some database →
    database.checkpointMeta = none ∧ database.checkpointBlueSet = ∅ ∧
      database.checkpointBlueScores = ∅ ∧ database.checkpointOrdering = []
  /-- Without storage of its own the chain does not reach the database of the DAG. -/
  unreached : chain.database = none → ∀ dag database, chain.ghostdag = some dag →
    dag.storage.database = some database → database = DagDatabase.empty
  unrebuilt : ∀ dag, chain.ghostdag = some dag → dag.checkpointStaleRebuilt = false
  executor : ∀ executor, chain.evmExecutor = some executor → executor.fresh = executor
  walletRegistry : ∀ registry, chain.walletRegistry = some registry → registry = ∅
  sponsorRegistry : chain.sponsorRegistry = ∅
  privacyPool : chain.privacyPool = PrivacyPool.empty
  nullifiers : ∀ manager, chain.privacyManager = some manager → manager.nullifiers = ∅
  recurringManager : ∀ manager, chain.recurringManager = some manager → manager = ∅
  totalFeesBurned : chain.totalFeesBurned = 0
  governanceScheduler : chain.governanceScheduler = GovernanceScheduler.new

/-- What is not in the ledger. -/
def outside (chain : Blockchain) : Blockchain :=
  { chain with toLedger := Ledger.new }

/-- The nodes have twin ledgers and share everything else. -/
structure Twin (left right : Blockchain) : Prop where
  ledger : Ledger.Twin Eq left.toLedger right.toLedger
  outside : left.outside = right.outside

theorem kept_eq : Kept Eq := fun _ same => congrArg _ same

namespace Twin

variable {left right : Blockchain} (twin : Twin left right)

include twin

theorem same {α : Type} (read : Blockchain → α)
    (independent : ∀ chain : Blockchain, read chain.outside = read chain) :
    read left = read right := by
  rw [← independent left, twin.outside, independent right]

/-- A change whose part outside the ledger does not depend on the ledger. -/
theorem change (change : Blockchain → Blockchain)
    (independent : ∀ chain : Blockchain, (change chain).outside = (change chain.outside).outside)
    (ledger : Ledger.Twin Eq (change left).toLedger (change right).toLedger) :
    Twin (change left) (change right) :=
  ⟨ledger, by rw [independent, twin.outside, ← independent]⟩

theorem blocks : left.blocks = right.blocks := twin.ledger.toAlike.same Ledger.blocks fun _ => rfl

theorem rest : left.rest = right.rest := by
  have split : ∀ chain : Blockchain, chain.rest = { chain.outside with
      toLedger := { chain.toLedger.others with
        database := chain.database
        blocks := { chain.toLedger.others.blocks with
          blockByHash := ∅, blockByNumber := ∅, txByHash := ∅ } } } :=
    fun _ => rfl
  rw [split, split, twin.ledger.others, twin.ledger.sameDatabase, twin.outside]

theorem observe : left.observe = right.observe := by
  have balances : left.getBalance = right.getBalance := funext twin.ledger.balances
  have nonces : left.getNonce = right.getNonce := funext twin.ledger.nonces
  have byHash : left.getBlockByHash = right.getBlockByHash := by
    funext hash
    simp only [getBlockByHash, blockAt, twin.blocks, twin.ledger.sameDatabase]
  have byNumber : left.getBlockByNumber = right.getBlockByNumber := by
    funext number
    simp only [getBlockByNumber, blockAt, twin.blocks]
  have byTransaction : left.getTransactionByHash = right.getTransactionByHash := by
    funext hash
    simp only [getTransactionByHash, blockAt, twin.blocks]
  rw [Blockchain.observe, Blockchain.observe, balances, nonces, byHash, byNumber, byTransaction,
    twin.same ghostdag fun _ => rfl, twin.rest]

theorem prunePeriodically (block : Block) :
    Twin (left.prunePeriodically block) (right.prunePeriodically block) := by
  refine twin.change (fun chain => chain.prunePeriodically block) (fun chain => ?_) ?_
  · dsimp only [Blockchain.prunePeriodically]
    split <;> rfl
  · dsimp only [Blockchain.prunePeriodically]
    split
    · exact twin.ledger.neutral (Ledger.neutral_pruneSpentOutputs _)
    · exact twin.ledger

theorem cacheAccount (address : Address) (account : AccountState) :
    Twin (left.cacheAccount address account) (right.cacheAccount address account) :=
  ⟨twin.ledger.cacheAccount address account, twin.outside⟩

theorem alterRecurring (id : Hash) (change : RecurringTransaction → RecurringTransaction) :
    Twin (left.alterRecurring id change) (right.alterRecurring id change) :=
  twin.change (fun chain => chain.alterRecurring id change) (fun _ => rfl) twin.ledger

theorem executeRecurring (crypto : Crypto) (block : Block) (recurring : RecurringTransaction) :
    Twin (executeRecurring crypto block left recurring)
      (executeRecurring crypto block right recurring) := by
  have balances : ∀ address, left.getBalance address = right.getBalance address :=
    twin.ledger.balances
  have nonces : ∀ address, left.getNonce address = right.getNonce address := twin.ledger.nonces
  unfold Blockchain.executeRecurring
  simp only [balances, nonces]
  split
  · exact twin.alterRecurring _ _
  · have debited := twin.cacheAccount recurring.from
      { balance := right.getBalance recurring.from - recurring.value, nonce :=
        right.getNonce recurring.from + 1 }
    have counted := debited.ledger.nonces recurring.to
    rw [counted]
    exact (debited.cacheAccount _ _).alterRecurring _ _

theorem processRecurringTransactions (crypto : Crypto) (conditions : Conditions) (block : Block) :
    Twin (left.processRecurringTransactions crypto conditions block)
      (right.processRecurringTransactions crypto conditions block) := by
  unfold Blockchain.processRecurringTransactions
  rw [twin.same recurringManager fun _ => rfl]
  split
  · exact twin
  · exact List.foldl_rel twin fun recurring _ _ _ twin =>
      twin.executeRecurring crypto block recurring

theorem finishBlock (crypto : Crypto) (conditions : Conditions) (block : Block) :
    Twin (left.finishBlock crypto conditions block)
      (right.finishBlock crypto conditions block) := by
  have paid := (twin.prunePeriodically block).processRecurringTransactions crypto conditions block
  exact paid.change (fun chain => { chain with
    governanceScheduler := chain.governanceScheduler.applyAtHeight block.header.blockNumber })
      (fun _ => rfl) paid.ledger

theorem creditMiner (miner : Address) (submission : BlockSubmission) :
    Twin (left.creditMiner miner submission) (right.creditMiner miner submission) := by
  have balance : left.getBalance miner = right.getBalance miner := twin.ledger.balances miner
  refine twin.change (fun chain => chain.creditMiner miner submission) (fun _ => rfl) ?_
  show Ledger.Twin Eq
    (left.toLedger.setBalance miner (Word.saturatingAdd (left.getBalance miner) _))
    (right.toLedger.setBalance miner (Word.saturatingAdd (right.getBalance miner) _))
  rw [balance]
  exact twin.ledger.setBalance kept_eq _ _

end Twin

theorem lockstep_twin (host : Host) : Lockstep host Twin fun _ _ => True where
  blocks twin := twin.blocks
  latest twin := twin.ledger.toAlike.same Ledger.cachedLatestBlockNumber fun _ => rfl
  zkVerifyingKey twin := twin.same zkVerifyingKey fun _ => rfl
  zkEnforce twin := twin.same zkEnforce fun _ => rfl
  ghostdag twin := congrArg Option.isSome (twin.same ghostdag fun _ => rfl)
  process := by
    intro left right step _ twin
    refine ((Ledger.simulation_twin kept_eq host).validateAndProcessTransactions
      (fun _ _ _ => trivial) twin.ledger).mono ?_
    exact fun _ _ states => ⟨states, twin.outside⟩
  stop dag twin :=
    twin.change (fun chain => { chain with ghostdag := some dag }) (fun _ => rfl) twin.ledger
  commit conditions block twin := twin.change (fun chain => chain.commitBlock conditions block)
    (fun _ => rfl) (twin_commitBlock kept_eq twin.ledger)
  finish _ _ _ twin := twin.finishBlock _ _ _
  credit miner submission twin := twin.creditMiner miner submission

/-- Twins accept the same calls and remain twins. -/
theorem Twin.run (twin : Twin left right)
    (accepted : ∀ entry ∈ Run.visited (Step.apply host) right steps,
      entry.2.ReturnsOk host entry.1) :
    (∀ entry ∈ Run.visited (Step.apply host) left steps, entry.2.ReturnsOk host entry.1) ∧
      Twin (Run.run (Step.apply host) left steps) (Run.run (Step.apply host) right steps) := by
  induction steps generalizing left right with
  | nil =>
    refine ⟨fun entry none => ?_, twin⟩
    cases none
  | cons step rest ih =>
    have both : Twin (step.apply host left) (step.apply host right) ∧
        (step.ReturnsOk host left ↔ step.ReturnsOk host right) :=
          (lockstep_twin host).apply trivial twin
    obtain ⟨after, outcome⟩ := both
    obtain ⟨later, final⟩ := ih after fun entry found =>
      accepted entry (List.mem_cons_of_mem _ found)
    refine ⟨?_, final⟩
    intro entry found
    rcases List.mem_cons.mp found with rfl | found
    · exact outcome.mpr (accepted (right, step) List.mem_cons_self)
    · exact later entry found

theorem Twin.indistinguishable (twin : Twin left right) (host : Host) :
    Indistinguishable host left right where
  observations := twin.observe
  accepted _ accepted := ⟨(twin.run accepted).1, (twin.run accepted).2.observe⟩

variable {hash : Hash} {database : StateDatabase}

theorem dagClearAll_eq_empty {database : DagDatabase} : database.clearAll = DagDatabase.empty ↔
    database.checkpointMeta = none ∧ database.checkpointBlueSet = ∅ ∧
      database.checkpointBlueScores = ∅ ∧ database.checkpointOrdering = [] := by
  simp [DagDatabase.clearAll, DagDatabase.empty]

theorem eq_map_iff {α : Type} {entry : Option α} {change : α → α} :
    entry = entry.map change ↔ ∀ value, entry = some value → value = change value := by
  cases entry with
  | none | some value => simp

variable {chain : Blockchain}

theorem database_clearForResync : chain.clearForResync.database = chain.fresh.database ↔
    ∀ database, chain.database = some database → database.legacyBalances = ∅ ∧
      database.legacyNonces = ∅ ∧ database.legacyContracts = ∅ ∧ database.legacyStorage = ∅ := by
  cases stored : chain.database with
  | none => simp [clearForResync, fresh, stored]
  | some database => simp [clearForResync, fresh, stored, clearAll, empty]

/-- An emptied DAG is a new one if its database is empty and no checkpoint was rebuilt. -/
theorem dagClear_eq_fresh {dag : GhostDag} (storage : DagStorage)
    (same : storage.hotCacheSize = dag.storage.hotCacheSize ∧
      storage.confirmationsForCheckpoint = dag.storage.confirmationsForCheckpoint) :
    clear { dag with storage } = dag.fresh ↔
      storage.database = dag.storage.database.map (fun _ => DagDatabase.empty) ∧
        dag.checkpointStaleRebuilt = false := by
  simp [GhostDag.fresh, clear, GhostDag.new, DagStorage.clear, DagStorage.new, same]

theorem ghostdag_clearForResync : chain.clearForResync.ghostdag = chain.fresh.ghostdag ↔
    ∀ dag, chain.ghostdag = some dag → (∀ database, dag.storage.database = some database →
      database.clearAll = DagDatabase.empty ∧
        (chain.database = none → database = DagDatabase.empty)) ∧
          dag.checkpointStaleRebuilt = false := by
  cases present : chain.ghostdag with
  | none => simp [clearForResync, fresh, present]
  | some dag =>
    have new : chain.fresh.ghostdag = some dag.fresh := by simp [fresh, present]
    cases stored : chain.database with
    | none =>
      have cleared :
          chain.clearForResync.ghostdag = some (clear { dag with storage := dag.storage }) := by
        simp [clearForResync, present, stored]
      have blank : ∀ database : DagDatabase, database = DagDatabase.empty →
          database.clearAll = DagDatabase.empty := by
        rintro _ rfl
        rfl
      rw [cleared, new, Option.some.injEq, dagClear_eq_fresh dag.storage ⟨rfl, rfl⟩]
      simp +contextual [eq_map_iff, and_iff_right_of_imp (blank _)]
    | some database =>
      have cleared : chain.clearForResync.ghostdag =
          some (clear { dag with storage := dag.storage.mapDatabase DagDatabase.clearAll }) := by
        simp [clearForResync, present, stored]
      rw [cleared, new, Option.some.injEq, dagClear_eq_fresh (dag.storage.mapDatabase _) ⟨rfl, rfl⟩]
      cases written : dag.storage.database with
      | none => simp [DagStorage.mapDatabase, written]
      | some store => simp [DagStorage.mapDatabase, written]

/-- Every account of the cleared node reads as an unknown one if nothing is left where it is
read. -/
theorem reads_clearForResync (textual : chain.clearForResync.database = chain.fresh.database) :
    (∀ address, chain.clearForResync.getBalance address = 0 ∧
      chain.clearForResync.getNonce address = 0) ↔
      (chain.verkleState = none → ∀ address account, chain.accounts.lookup address = some account →
        account = { balance := 0, nonce := 0 }) ∧
      ∀ verkle, chain.verkleState = some verkle → ∀ address, verkle.account address =
        { balance := 0, nonce := 0 } := by
  have zero_iff : ∀ account : AccountState, account = { balance := 0, nonce := 0 } ↔
      account.balance = 0 ∧ account.nonce = 0 := by
    intro account
    cases account
    simp
  cases mode : chain.verkleState with
  | some verkle =>
    have balances : ∀ address, chain.clearForResync.getBalance address =
        (verkle.account address).balance := by
      simp [Ledger.getBalance, clearForResync, mode]
    have nonces : ∀ address, chain.clearForResync.getNonce address =
        (verkle.account address).nonce := by
      simp [Ledger.getNonce, clearForResync, mode]
    simp only [balances, nonces, zero_iff]
    simp
  | none =>
    have unknown : ∀ address,
        (chain.clearForResync.database.bind fun database => database.getBalance address) = none ∧
        (chain.clearForResync.database.bind fun database => database.getNonce address) = none := by
      rw [textual]
      cases stored : chain.database with
      | none => simp [fresh, stored]
      | some database => simp [fresh, empty, getBalance, getNonce]
    have cache : chain.clearForResync.accounts = chain.accounts := rfl
    have noVerkle : chain.clearForResync.verkleState = none := mode
    simp only [Ledger.getBalance, Ledger.getNonce, noVerkle, unknown, cache, zero_iff]
    constructor
    · intro zero
      refine ⟨fun _ address account found => ?_, fun _ other => by cases other⟩
      simpa [found] using zero address
    · rintro ⟨zero, -⟩ address
      cases found : chain.accounts.lookup address with
      | none => simp
      | some account => simpa using zero trivial address account found

theorem reads_fresh {address : Address} : chain.fresh.getBalance address = 0 ∧
    chain.fresh.getNonce address = 0 := by
  cases mode : chain.verkleState with
  | some verkle =>
    simp [Ledger.getBalance, Ledger.getNonce, fresh, mode, VerkleState.account, Table.getD]
  | none =>
    cases stored : chain.database with
    | none => simp [Ledger.getBalance, Ledger.getNonce, fresh, mode, stored, new, Ledger.new]
    | some database =>
      simp [Ledger.getBalance, Ledger.getNonce, fresh, mode, stored, new, Ledger.new, empty,
        getBalance, getNonce]

/-- With nothing left the cleared node is the twin of a new one. -/
theorem NothingLeft.twin (clean : chain.NothingLeft) : Twin chain.clearForResync chain.fresh := by
  have database : chain.clearForResync.database = chain.fresh.database :=
    database_clearForResync.mpr clean.textualKeys
  have dag : chain.clearForResync.ghostdag = chain.fresh.ghostdag := by
    refine ghostdag_clearForResync.mpr fun dag present =>
      ⟨fun store written => ⟨?_, fun absent => ?_⟩, ?_⟩
    · exact dagClearAll_eq_empty.mpr (clean.checkpoint dag store present written)
    · exact clean.unreached absent dag store present written
    · exact clean.unrebuilt dag present
  have zero := (reads_clearForResync database).mpr ⟨clean.accounts, clean.verkleState⟩
  have executor : chain.evmExecutor = chain.fresh.evmExecutor :=
    eq_map_iff.mpr fun executor present => (clean.executor executor present).symm
  have wallets : chain.walletRegistry = chain.fresh.walletRegistry :=
    eq_map_iff.mpr clean.walletRegistry
  have manager : chain.privacyManager = chain.fresh.privacyManager := by
    refine eq_map_iff.mpr fun manager present => ?_
    rw [← clean.nullifiers manager present]
  have recurring : chain.recurringManager = chain.fresh.recurringManager :=
    eq_map_iff.mpr clean.recurringManager
  have others : chain.clearForResync.toLedger.others = chain.fresh.toLedger.others := by
    obtain ⟨byHash, byNumber, byTransaction⟩ := clean.indexes
    have blocks : chain.clearForResync.blocks = chain.fresh.blocks := by
      simp [clearForResync, fresh, new, Ledger.new, BlocksData.empty, byHash,
        byNumber, byTransaction]
    simp only [Ledger.others, Ledger.mk.injEq]
    exact ⟨trivial, blocks, trivial, rfl, clean.recentTxHashes, rfl, trivial, rfl,
      executor, wallets, clean.sponsorRegistry, clean.privacyPool, manager, rfl⟩
  have outside : chain.clearForResync.outside = chain.fresh.outside := by
    simp only [outside, mk.injEq]
    exact ⟨trivial, dag, rfl, recurring, rfl, rfl, clean.totalFeesBurned, clean.governanceScheduler⟩
  refine ⟨⟨?_, database ▸ rel_self (fun _ => rfl) _⟩, outside⟩
  exact {
    database := database ▸ rel_self Alike.refl _
    verkle := Option.isSome_map.symm
    balances := fun address => (zero address).1.trans reads_fresh.1.symm
    nonces := fun address => (zero address).2.trans reads_fresh.2.symm
    others := others }

theorem getBlockByHash_fresh : chain.fresh.getBlockByHash hash = .ok none := by
  have unstored : (chain.fresh.database.bind fun database => database.getBlock hash) = none := by
    cases stored : chain.database with
    | none => simp [fresh, stored]
    | some database => simp [fresh, getBlock, empty]
  exact congrArg Except.ok unstored

/-- A position that is still there points past the end of the emptied list. -/
theorem getBlockByHash_clearForResync
    (entry : chain.blocks.blockByHash.lookup hash = some position) :
    chain.clearForResync.getBlockByHash hash = .error .panic := by
  simp [getBlockByHash, blockAt, clearForResync, entry, Except.map]

/-- A table whose entries all make a lookup panic has none if the lookup of a new node is the
same. -/
theorem eq_empty_of_answers {K V Answer : Type} [DecidableEq K] {table : Table K V}
    {left right : K → Except ChainFault Answer} (same : left = right)
    (panics : ∀ key value, table.lookup key = some value → left key = .error .panic)
    (answers : ∀ key, ∃ answer, right key = .ok answer) : table = ∅ := by
  refine Finmap.ext_lookup fun key => ?_
  cases found : table.lookup key with
  | none => rfl
  | some value =>
    obtain ⟨answer, given⟩ := answers key
    rw [← same, panics key value found] at given
    cases given

/-- Whatever is left shows. -/
theorem nothingLeft_of_observe (same : chain.clearForResync.observe = chain.fresh.observe) :
    chain.NothingLeft := by
  have rest {α : Type} (read : Blockchain → α) :
      read chain.clearForResync.rest = read chain.fresh.rest :=
    congrArg (fun seen => read (Observations.rest seen)) same
  have database : chain.clearForResync.database = chain.fresh.database := rest fun chain =>
    chain.database
  have textual := database_clearForResync.mp database
  have dag : chain.clearForResync.ghostdag = chain.fresh.ghostdag := rest fun chain =>
    chain.ghostdag
  have emptied := ghostdag_clearForResync.mp dag
  have reads : ∀ address, chain.clearForResync.getBalance address = 0 ∧
      chain.clearForResync.getNonce address = 0 := by
    intro address
    have balances : chain.clearForResync.getBalance = chain.fresh.getBalance :=
      congrArg Observations.balances same
    have nonces : chain.clearForResync.getNonce = chain.fresh.getNonce :=
      congrArg Observations.nonces same
    rw [balances, nonces]
    exact reads_fresh
  obtain ⟨accounts, verkleState⟩ := (reads_clearForResync database).mp reads
  exact {
    accounts := accounts
    verkleState := verkleState
    textualKeys := textual
    indexes := by
      refine ⟨?_, ?_, ?_⟩
      · exact eq_empty_of_answers (congrArg Observations.blockByHash same)
          (fun _ _ entry => getBlockByHash_clearForResync entry) fun hash =>
            ⟨none, getBlockByHash_fresh⟩
      · exact eq_empty_of_answers (congrArg Observations.blockByNumber same)
          (fun _ _ entry => by
            simp [observe, getBlockByNumber, blockAt, clearForResync, entry, Except.map])
          fun _ => ⟨_, rfl⟩
      · exact eq_empty_of_answers (congrArg Observations.transactionByHash same)
          (fun _ _ entry => by
            simp [observe, getTransactionByHash, blockAt, clearForResync, entry, Except.bind])
          fun _ => ⟨_, rfl⟩
    recentTxHashes := rest fun chain => chain.recentTxHashes
    checkpoint := fun dag store present written =>
      dagClearAll_eq_empty.mp ((emptied dag present).1 store written).1
    unreached := fun absent dag store present written =>
      ((emptied dag present).1 store written).2 absent
    unrebuilt := fun dag present => (emptied dag present).2
    executor := fun executor present =>
      (eq_map_iff.mp (rest fun chain => chain.evmExecutor) executor present).symm
    walletRegistry := eq_map_iff.mp (rest fun chain => chain.walletRegistry)
    sponsorRegistry := rest fun chain => chain.sponsorRegistry
    privacyPool := rest fun chain => chain.privacyPool
    nullifiers := fun manager present => congrArg PrivacyManager.nullifiers
      (eq_map_iff.mp (rest fun chain => chain.privacyManager) manager present)
    recurringManager := eq_map_iff.mp (rest fun chain => chain.recurringManager)
    totalFeesBurned := rest fun chain => chain.totalFeesBurned
    governanceScheduler := rest fun chain => chain.governanceScheduler }

/-- A cleared node answers and goes on as a new one exactly if clearing leaves nothing behind. -/
theorem indistinguishable_clearForResync_iff (host : Host) (chain : Blockchain) :
    Indistinguishable host chain.clearForResync chain.fresh ↔ chain.NothingLeft :=
  ⟨fun same => nothingLeft_of_observe same.observations,
    fun clean => clean.twin.indistinguishable host⟩

theorem fresh_new : new.fresh = new := rfl

theorem fresh_storeBlock {block : Block} : (chain.storeBlock block).fresh = chain.fresh := by
  unfold storeBlock
  cases stored : chain.database with
  | none => rfl
  | some database =>
    cases present : chain.ghostdag with
    | none => simp [fresh, stored, present]
    | some dag =>
      simp [fresh, stored, present, GhostDag.fresh, DagStorage.mapDatabase, Function.comp_def]

theorem fresh_foldl_storeBlock {blocks : List Block} {chain : Blockchain} :
    (blocks.foldl storeBlock chain).fresh = chain.fresh := by
  induction blocks generalizing chain with
  | nil => rfl
  | cons block rest ih =>
    rw [List.foldl_cons, ih]
    exact fresh_storeBlock

theorem fresh_loadFromStorage : chain.loadFromStorage.fresh = chain.fresh := by
  unfold loadFromStorage
  split
  · rfl
  · dsimp only
    split
    · rfl
    · exact fresh_foldl_storeBlock

theorem fresh_withDatabase {database : DagDatabase} :
    (withDatabase database).fresh = withDatabase DagDatabase.empty := by
  rw [GhostDag.fresh, storage_withDatabase]
  rfl

theorem fresh_withStorage :
    (withStorage database dagDatabase).fresh = withStorage empty DagDatabase.empty := by
  have none : empty.getAllBlocks = [] := by decide +kernel
  rw [withStorage, fresh_loadFromStorage]
  simp [withStorage, loadFromStorage, none, fresh, fresh_withDatabase, new, Ledger.new]

/-- A new node over a database, after an account was set up and the first block came. -/
def syncedNode : Blockchain :=
  Step.apply Host.sample ⟨.addBlock genesisBlock, Conditions.uncontended 1600000020⟩
    ((withStorage empty DagDatabase.empty).setBalance Transaction.sampleSender 100000)

/-- The account keeps its balance, and the lookup of the removed block panics. -/
theorem resync_keeps_account_and_index : syncedNode.clearForResync.getBalance sampleSender =
      100000 ∧ syncedNode.fresh.getBalance sampleSender = 0 ∧
      syncedNode.clearForResync.getBlockByHash genesisBlock.hash = .error .panic ∧
      syncedNode.fresh.getBlockByHash genesisBlock.hash = .ok none ∧
      ¬Indistinguishable Host.sample syncedNode.clearForResync syncedNode.fresh := by
  have kept : syncedNode.clearForResync.getBalance sampleSender = 100000 := by decide +kernel
  have unknown : syncedNode.fresh.getBalance sampleSender = 0 := reads_fresh.1
  have entry : syncedNode.blocks.blockByHash.lookup genesisBlock.hash = some 0 := by decide +kernel
  refine ⟨kept, unknown, getBlockByHash_clearForResync entry, getBlockByHash_fresh, fun same => ?_⟩
  have balances := congrFun (congrArg Observations.balances same.observations) sampleSender
  have read : syncedNode.clearForResync.getBalance sampleSender =
      syncedNode.fresh.getBalance sampleSender := balances
  exact absurd read (by decide)

end Blockchain

end IronDag
