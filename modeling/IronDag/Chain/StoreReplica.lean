import IronDag.Chain.Evm

namespace IronDag

open StateDatabase Option

variable {address : Address}

namespace StateDatabase

/-- Two databases answer every read of the chain and of the executor alike. -/
structure Alike (left right : StateDatabase) : Prop where
  balances : ∀ address, left.getBalance address = right.getBalance address
  nonces : ∀ address, left.getNonce address = right.getNonce address
  code : ∀ address, left.getContractCode address = right.getContractCode address
  storage : ∀ address key,
    left.getContractStorage address key = right.getContractStorage address key

theorem Alike.refl (database : StateDatabase) : Alike database database :=
  ⟨fun _ => rfl, fun _ => rfl, fun _ => rfl, fun _ _ => rfl⟩

theorem Alike.trans (first : Alike one two) (second : Alike two three) : Alike one three :=
  ⟨fun address => (first.balances address).trans (second.balances address),
    fun address => (first.nonces address).trans (second.nonces address),
    fun address => (first.code address).trans (second.code address),
    fun address key => (first.storage address key).trans (second.storage address key)⟩

theorem rel_self (refl : ∀ database, related database database) :
    ∀ database : Option StateDatabase, Rel related database database
  | none => .none
  | some database => .some (refl database)

/-- A write that goes ahead whatever the database holds, and removes no account. -/
structure Adds (write : StateDatabase → StateDatabase) : Prop where
  alike : ∀ {left right}, Alike left right → Alike (write left) (write right)
  balances : ∀ database address, (write database).getBalance address = none →
    database.getBalance address = none
  nonces : ∀ database address, (write database).getNonce address = none →
    database.getNonce address = none

/-- Such a write of accounts, which leaves the blocks alone. -/
structure Blind (write : StateDatabase → StateDatabase) : Prop extends Adds write where
  blocks : ∀ database hash, (write database).getBlock hash = database.getBlock hash

theorem blind_id : Blind id :=
  ⟨⟨fun same => same, fun _ _ absent => absent, fun _ _ absent => absent⟩, fun _ _ => rfl⟩

theorem Blind.comp (later : Blind second) (earlier : Blind first) : Blind (second ∘ first) where
  alike same := later.alike (earlier.alike same)
  balances database address absent :=
    earlier.balances database address (later.balances _ address absent)
  nonces database address absent := earlier.nonces database address (later.nonces _ address absent)
  blocks database hash := (later.blocks _ hash).trans (earlier.blocks database hash)

theorem blind_putBalance (address : Address) (balance : U128) :
    Blind fun database => database.putBalance address balance where
  alike same := by
    refine ⟨fun read => ?_, same.nonces, same.code, same.storage⟩
    rw [getBalance_putBalance, getBalance_putBalance, same.balances]
  balances database read absent := by
    rw [getBalance_putBalance] at absent
    split at absent
    · cases absent
    · exact absent
  nonces _ _ absent := absent
  blocks _ _ := rfl

theorem blind_putNonce {nonce : U64} : Blind fun database => database.putNonce address nonce where
  alike same := by
    refine ⟨same.balances, fun read => ?_, same.code, same.storage⟩
    rw [getNonce_putNonce, getNonce_putNonce, same.nonces]
  balances _ _ absent := absent
  nonces database read absent := by
    rw [getNonce_putNonce] at absent
    split at absent
    · cases absent
    · exact absent
  blocks _ _ := rfl

theorem blind_putContractCode {code : Bytes} :
    Blind fun database => database.putContractCode address code where
  alike same := by
    refine ⟨same.balances, same.nonces, fun read => ?_, same.storage⟩
    have before := same.code read
    simp only [getContractCode, putContractCode, Table.lookup_write] at before ⊢
    split
    · rfl
    · exact before
  balances _ _ absent := absent
  nonces _ _ absent := absent
  blocks _ _ := rfl

theorem blind_putContractStorage {slot : Hash × Hash} :
    Blind fun database => database.putContractStorage address slot.1 slot.2 where
  alike same := by
    refine ⟨same.balances, same.nonces, same.code, fun read key => ?_⟩
    have before := same.storage read key
    simp only [getContractStorage, putContractStorage, Table.lookup_write] at before ⊢
    split
    · rfl
    · exact before
  balances _ _ absent := absent
  nonces _ _ absent := absent
  blocks _ _ := rfl

theorem blind_putReceipt {hash : Hash} {receipt : TxReceipt} :
    Blind fun database => database.putReceipt hash receipt :=
  ⟨⟨fun same => ⟨same.balances, same.nonces, same.code, same.storage⟩, fun _ _ absent => absent,
    fun _ _ absent => absent⟩, fun _ _ => rfl⟩

theorem adds_putBlock {block : Block} : Adds fun database => database.putBlock block :=
  ⟨fun same => ⟨same.balances, same.nonces, same.code, same.storage⟩, fun _ _ absent => absent,
    fun _ _ absent => absent⟩

/-- A relation between databases that such writes keep. -/
def Kept (related : StateDatabase → StateDatabase → Prop) : Prop :=
  ∀ {write one two}, Adds write → related one two → related (write one) (write two)

theorem kept_alike : Kept Alike := fun adds same => adds.alike same

theorem Kept.map (kept : Kept related) (adds : Adds write) (stores : Rel related left right) :
    Rel related (left.map write) (right.map write) := by
  cases stores with
  | none => exact .none
  | some same => exact .some (kept adds same)

end StateDatabase

namespace EvmExecutor

open StateDatabase (Alike Blind)

namespace Commit

/-- A step that decides by the memory of the executor alone what to write. -/
def Uniform (step : Commit → Commit) : Prop :=
  ∀ state, ∃ after write, Blind write ∧ ∀ batch, step ⟨state, batch⟩ = ⟨after, batch.map write⟩

theorem Uniform.comp (later : Uniform second) (earlier : Uniform first) :
    Uniform (second ∘ first) := by
  intro state
  obtain ⟨middle, one, blindOne, first⟩ := earlier state
  obtain ⟨after, two, blindTwo, second⟩ := later middle
  refine ⟨after, two ∘ one, blindTwo.comp blindOne, fun batch => ?_⟩
  rw [Function.comp_apply, first, second, map_map]

theorem uniform_id : Uniform id := fun state => ⟨state, id, blind_id, fun batch => by simp⟩

theorem uniform_if (decision : EvmState → Prop) [DecidablePred decision] (uniform : Uniform step) :
    Uniform fun commit => if decision commit.state then step commit else commit := by
  intro state
  by_cases decided : decision state
  · obtain ⟨after, write, blind, steps⟩ := uniform state
    exact ⟨after, write, blind, fun batch => by simpa [decided] using steps batch⟩
  · exact ⟨state, id, blind_id, fun batch => by simp [decided]⟩

theorem uniform_putBalance (address : Address) (balance : U128) :
    Uniform fun commit => commit.putBalance address balance :=
  fun state => ⟨state.setBalance address balance, _, blind_putBalance address balance, fun _ => rfl⟩

theorem uniform_putNonce (address : Address) (nonce : U64) :
    Uniform fun commit => commit.putNonce address nonce :=
  fun state => ⟨state.setNonce address nonce, _, blind_putNonce, fun _ => rfl⟩

theorem uniform_putContractCode {code : Bytes} :
    Uniform fun commit => commit.putContractCode address code :=
  fun state => ⟨state.storeContract address code, _, blind_putContractCode, fun _ => rfl⟩

theorem uniform_putStorage (address : Address) (slots : List (Hash × Hash)) :
    Uniform fun commit => commit.putStorage address slots := by
  have blind : ∀ slots : List (Hash × Hash), Blind fun batch =>
      slots.foldl (fun batch slot => batch.putContractStorage address slot.1 slot.2) batch := by
    intro slots
    induction slots with
    | nil => exact blind_id
    | cons slot rest ih => exact ih.comp blind_putContractStorage
  exact fun state => ⟨state, _, blind slots, fun _ => rfl⟩

variable {state : EvmState}

theorem Uniform.some (uniform : Uniform step)
    {batch : Option StateDatabase} (done : some (step ⟨state, batch⟩) = .some commit) :
    ∃ write, Blind write ∧ commit.batch = batch.map write ∧
      ∀ other, some (step ⟨state, other⟩) = .some ⟨commit.state, other.map write⟩ := by
  obtain ⟨after, write, blind, steps⟩ := uniform state
  rw [steps] at done
  cases done
  exact ⟨write, blind, rfl, fun other => congrArg Option.some (steps other)⟩

theorem uniform_code (address : Address) (code : Option Bytes) : Uniform fun commit =>
      match code with
      | .some code => if code.isEmpty then commit else commit.putContractCode address code
      | .none => commit := by
  cases code with
  | none => exact uniform_id
  | some code =>
    by_cases empty : code.isEmpty = true
    · simp only [empty]
      exact uniform_id
    · simp only [empty]
      exact uniform_putContractCode

theorem apply_modify {balance nonce : Nat} {code : Option Bytes} {storage : List (Hash × Hash)}
    {resetStorage : Bool} (fits : ¬(2 ^ 128 ≤ balance ∨ 2 ^ 64 ≤ nonce)) :
    ∃ step, Uniform step ∧
      ∀ commit : Commit, commit.apply (.modify address balance nonce code storage resetStorage) =
      .some (step commit) := by
  have balanceStep := uniform_if
    (fun state => 0 < BitVec.ofNat 128 balance ∨ 0 < state.getBalance address)
    (uniform_putBalance address (BitVec.ofNat 128 balance))
  have nonceStep := uniform_if (fun state => 0 < BitVec.ofNat 64 nonce ∨ 0 < state.getNonce address)
    (uniform_putNonce address (BitVec.ofNat 64 nonce))
  have coded := (uniform_putStorage address storage).comp (uniform_code address code)
  refine ⟨_, (coded.comp nonceStep).comp balanceStep, fun commit => ?_⟩
  exact if_neg fits

theorem apply_uniform {batch : Option StateDatabase}
    (done : apply ⟨state, batch⟩ change = .some commit) :
    ∃ write, Blind write ∧ commit.batch = batch.map write ∧
      ∀ other, apply ⟨state, other⟩ change = .some ⟨commit.state, other.map write⟩ := by
  cases change with
  | delete address =>
    exact ((uniform_putNonce address 0).comp (uniform_putBalance address 0)).some done
  | modify address balance nonce code storage resetStorage =>
    by_cases overflow : 2 ^ 128 ≤ balance ∨ 2 ^ 64 ≤ nonce
    · unfold apply at done
      simp only [if_pos overflow] at done
      cases done
    · obtain ⟨step, uniform, steps⟩ :=
        @apply_modify address balance nonce code storage resetStorage overflow
      rw [steps] at done
      simpa only [steps] using uniform.some done

theorem foldlM_uniform {changes : List EvmChange} {batch : Option StateDatabase}
    (done : changes.foldlM apply ⟨state, batch⟩ = .some commit) :
    ∃ write, Blind write ∧ commit.batch = batch.map write ∧
      ∀ other, changes.foldlM apply ⟨state, other⟩ = .some ⟨commit.state, other.map write⟩ := by
  induction changes generalizing state batch with
  | nil =>
    cases done
    exact ⟨id, blind_id, by simp, fun other => by simp⟩
  | cons change rest ih =>
    rw [List.foldlM_cons, bind_eq_bind, bind_eq_some_iff] at done
    obtain ⟨middle, first, done⟩ := done
    obtain ⟨one, blindOne, batchOne, firstOther⟩ := apply_uniform first
    obtain ⟨two, blindTwo, batchTwo, restOther⟩ := @ih middle.state middle.batch done
    refine ⟨two ∘ one, blindTwo.comp blindOne, by rw [batchTwo, batchOne, map_map], fun other => ?_⟩
    rw [List.foldlM_cons, bind_eq_bind, firstOther, bind_some, restOther, map_map]

end Commit

variable {executor : EvmExecutor}

theorem bind_alike {α : Type} {read : StateDatabase → Option α}
    (same : ∀ left right, Alike left right → read left = read right)
    (alike : Rel Alike left right) :
    (executor.store left).bind read = (executor.store right).bind read := by
  unfold store
  split
  · cases alike with
    | none => rfl
    | some answers => exact same _ _ answers
  · rfl

theorem getContractCode_alike (alike : Rel Alike left right) :
    executor.getContractCode left = executor.getContractCode right := by
  funext address
  unfold getContractCode
  rw [bind_alike (fun _ _ answers => answers.code address) alike]

theorem getAccountNonce_alike (alike : Rel Alike left right) :
    executor.getAccountNonce left = executor.getAccountNonce right := by
  funext address
  unfold getAccountNonce
  rw [bind_alike (fun _ _ answers => answers.nonces address) alike]

theorem backend_alike (alike : Rel Alike left right) :
    executor.backend left tx blockNumber blockTimestamp =
      executor.backend right tx blockNumber blockTimestamp := by
  have balances : executor.getAccountBalance left = executor.getAccountBalance right := by
    funext address
    unfold getAccountBalance
    rw [bind_alike (fun _ _ answers => answers.balances address) alike]
  have storage : executor.getContractStorage left = executor.getContractStorage right := by
    funext address key
    exact bind_alike (fun _ _ answers => answers.storage address key) alike
  unfold backend
  rw [getContractCode_alike alike, getAccountNonce_alike alike, balances, storage]

theorem commitChanges_alike
    {right : Option StateDatabase}
    (done : executor.commitChanges left changes = some (committed, stored)) :
    ∃ write, Blind write ∧ stored = left.map write ∧
      executor.commitChanges right changes = some (committed, right.map write) := by
  unfold commitChanges store at done ⊢
  obtain ⟨commit, folded, pair⟩ := map_eq_some_iff.mp done
  obtain ⟨write, blind, batch, others⟩ := Commit.foldlM_uniform folded
  by_cases persistent : executor.persistent = true
  · simp only [persistent] at pair batch ⊢
    cases pair
    exact ⟨write, blind, batch, by rw [others]; rfl⟩
  · simp only [persistent, if_false, Bool.false_eq_true] at folded pair ⊢
    cases pair
    exact ⟨id, blind_id, by simp, by rw [folded]; simp⟩

/-- Two executions that fail for one reason, or make the same writes to their databases. -/
inductive SameRun (left right : Option StateDatabase) :
    Except (Option String) Execution → Except (Option String) Execution → Prop where
  | error (reason : Option String) : SameRun left right (.error reason) (.error reason)
  | ok (execution : Execution) (blind : Blind write) :
      SameRun left right (.ok { execution with database := left.map write })
        (.ok { execution with database := right.map write })

theorem executeSputnik_alike (alike : Rel Alike left right) :
    SameRun left right
      (executor.executeSputnik left crypto interpreter tx blockNumber blockTimestamp)
      (executor.executeSputnik right crypto interpreter tx blockNumber blockTimestamp) := by
  unfold executeSputnik
  rw [← backend_alike alike, ← getAccountNonce_alike alike]
  cases interpreter (executor.backend left tx blockNumber blockTimestamp) tx with
  | error reason => exact .error _
  | ok success =>
    dsimp only
    cases changed : executor.commitChanges left success.changes with
    | some pair =>
      obtain ⟨committed, stored⟩ := pair
      obtain ⟨write, blind, rfl, other⟩ := @commitChanges_alike _ _ _ _ _ right changed
      rw [other]
      exact .ok { executor := committed, database := none, .. } blind
    | none =>
      cases other : executor.commitChanges right success.changes with
      | none => exact .error none
      | some pair =>
        obtain ⟨_, -, -, back⟩ := @commitChanges_alike _ _ _ pair.1 pair.2 left other
        cases changed.symm.trans back

/-- An execution on one of two alike databases is one on the other. -/
theorem executeTransaction_alike (alike : Rel Alike left right) :
    SameRun left right
      (executor.executeTransaction left crypto interpreter tx blockNumber blockTimestamp)
      (executor.executeTransaction right crypto interpreter tx blockNumber blockTimestamp) := by
  unfold executeTransaction
  rw [← getContractCode_alike alike]
  split
  · split
    · simpa using SameRun.ok { executor, database := none, output := [], gasUsed := 21000, logs :=
        [] } blind_id
    · exact .error _
  · split
    · exact .error _
    · exact executeSputnik_alike alike

end EvmExecutor

end IronDag
