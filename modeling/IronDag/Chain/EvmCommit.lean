import IronDag.Chain.Evm
import IronDag.Lib.KeyedChanges
import Mathlib.Algebra.BigOperators.Group.Finset.Basic

namespace IronDag

open Option EvmChange EvmState

/-- An account as the interpreter reads it. -/
@[ext]
structure EvmAccount where
  balance : U128
  nonce : U64
  code : Bytes
  storage : Hash → Hash

namespace EvmAccount

def empty : EvmAccount where
  balance := 0
  nonce := 0
  code := []
  storage := fun _ => 0

/-- The slots as they are listed, one after another. -/
def writeSlots (storage : Hash → Hash) (slots : List (Hash × Hash)) : Hash → Hash :=
  slots.foldl (fun storage slot => Function.update storage slot.1 slot.2) storage

/-- The account as a change lists it. -/
def listed (change : EvmChange) (account : EvmAccount) : EvmAccount :=
  match change with
  | .modify _ balance nonce code slots resetStorage =>
    { balance := BitVec.ofNat 128 balance
      nonce := BitVec.ofNat 64 nonce
      code := code.getD account.code
      storage := writeSlots (if resetStorage then fun _ => 0 else account.storage) slots }
  | .delete _ => empty

theorem writeSlots_of_notMem {storage : Hash → Hash}
    (unlisted : key ∉ slots.map Prod.fst) : writeSlots storage slots key = storage key := by
  induction slots generalizing storage with
  | nil => rfl
  | cons slot rest ih =>
    rw [List.map_cons, List.mem_cons, not_or] at unlisted
    exact (ih unlisted.2).trans (Function.update_of_ne unlisted.1 _ _)

theorem writeSlots_of_mem
    (member : key ∈ slots.map Prod.fst) :
    writeSlots left slots key = writeSlots right slots key := by
  induction slots generalizing left right with
  | nil => cases member
  | cons slot rest ih =>
    by_cases later : key ∈ rest.map Prod.fst
    · exact ih later
    · have here : key = slot.1 := (List.mem_cons.mp member).resolve_right later
      subst here
      have written : ∀ storage : Hash → Hash, writeSlots storage (slot :: rest) slot.1 =
          slot.2 := fun storage =>
        (writeSlots_of_notMem later).trans (Function.update_self _ _ _)
      rw [written, written]

theorem writeSlots_eq_iff :
    writeSlots left slots = writeSlots right slots ↔ ∀ key, key ∉ slots.map Prod.fst →
      left key = right key := by
  constructor
  · intro same key unlisted
    have shown := congrFun same key
    rwa [writeSlots_of_notMem unlisted, writeSlots_of_notMem unlisted] at shown
  · intro same
    funext key
    by_cases member : key ∈ slots.map Prod.fst
    · exact writeSlots_of_mem member
    · rw [writeSlots_of_notMem member, writeSlots_of_notMem member, same key member]

end EvmAccount

/-- What the executor holds about an account: its memory, whether it has a database, and what reads
make of both. -/
@[ext]
structure HeldAccount where
  cachedBalance : U128
  cachedNonce : U64
  persistent : Bool
  account : EvmAccount

open EvmAccount (writeSlots)

def EvmChange.Fits : EvmChange → Prop
  | modify _ balance nonce _ _ _ => balance < 2 ^ 128 ∧ nonce < 2 ^ 64
  | delete _ => True

/-- What the executor makes of a change to the account. -/
def HeldAccount.applied (change : EvmChange) (held : HeldAccount) : HeldAccount :=
  match change with
  | .modify _ balance nonce code slots _ =>
    { cachedBalance := BitVec.ofNat 128 balance
      cachedNonce := BitVec.ofNat 64 nonce
      persistent := held.persistent
      account :=
        { balance :=
            if 0 < BitVec.ofNat 128 balance ∨ 0 < held.cachedBalance then BitVec.ofNat 128 balance
            else held.account.balance
          nonce :=
            if 0 < BitVec.ofNat 64 nonce ∨ 0 < held.cachedNonce then BitVec.ofNat 64 nonce else
              held.account.nonce
          code := if code = some [] then held.account.code else code.getD held.account.code
          storage := if held.persistent then writeSlots held.account.storage slots else
            held.account.storage } }
  | .delete _ =>
    { held with
      cachedBalance := 0
      cachedNonce := 0
      account := { held.account with balance := 0, nonce := 0 } }

namespace EvmExecutor

namespace Commit

variable (commit : Commit) (written address : Address)

def held : HeldAccount where
  cachedBalance := commit.state.getBalance address
  cachedNonce := commit.state.getNonce address
  persistent := commit.batch.isSome
  account :=
    { balance := (commit.batch.bind fun batch => batch.getBalance address).getD
        (commit.state.getBalance address)
      nonce := (commit.batch.bind fun batch => batch.getNonce address).getD
        (commit.state.getNonce address)
      code := ((commit.batch.bind fun batch => batch.getContractCode address).or
        (commit.state.contracts.lookup address)).getD []
      storage := fun key =>
        (commit.batch.bind fun batch => batch.getContractStorage address key).getD 0 }

theorem held_putBalance {balance : U128} : (commit.putBalance written balance).held address =
    if address = written then
      { commit.held address with
        cachedBalance := balance
        account := { (commit.held address).account with balance } }
    else commit.held address := by
  obtain ⟨state, batch⟩ := commit
  cases batch <;> by_cases here : address = written <;> simp [held, putBalance, here]

theorem held_putNonce {nonce : U64} : (commit.putNonce written nonce).held address =
    if address = written then
      { commit.held address with
        cachedNonce := nonce
        account := { (commit.held address).account with nonce } }
    else commit.held address := by
  obtain ⟨state, batch⟩ := commit
  cases batch <;> by_cases here : address = written <;> simp [held, putNonce, here]

theorem held_putContractCode {code : Bytes} : (commit.putContractCode written code).held address =
    if address = written then
      { commit.held address with account := { (commit.held address).account with code } }
    else commit.held address := by
  obtain ⟨state, batch⟩ := commit
  have memory : ∀ read, (state.contracts.insert written code).lookup read =
      if read = written then some code else state.contracts.lookup read := fun read =>
    Table.lookup_write
  cases batch with
  | none =>
    by_cases here : address = written <;>
      simp [held, putContractCode, storeContract, getBalance, getNonce, memory, here]
  | some batch =>
    by_cases here : address = written <;>
      simp [held, putContractCode, storeContract, getBalance, getNonce, here]

theorem held_putSlot {state : EvmState} {batch : StateDatabase} {key value : Hash} :
    held ⟨state, some (batch.putContractStorage written key value)⟩ address =
      if address = written then
        { held ⟨state, some batch⟩ address with
          account :=
            { (held ⟨state, some batch⟩ address).account with
              storage := Function.update (held ⟨state, some batch⟩ address).account.storage
                key value } }
      else held ⟨state, some batch⟩ address := by
  by_cases here : address = written
  · subst here
    have storage : (fun read =>
        ((batch.putContractStorage address key value).getContractStorage address read).getD 0) =
        Function.update (fun read => (batch.getContractStorage address read).getD 0) key value := by
      funext read
      by_cases same : read = key <;> simp [same]
    simpa [held] using storage
  · simp [held, here]

theorem held_putStorage : (commit.putStorage written slots).held address =
    if address = written ∧ commit.batch.isSome then
      { commit.held address with
        account :=
          { (commit.held address).account with
            storage := writeSlots (commit.held address).account.storage slots } }
    else commit.held address := by
  obtain ⟨state, batch⟩ := commit
  cases batch with
  | none => simp [putStorage]
  | some batch =>
    -- slot by slot; the memory stays as it is
    induction slots generalizing batch with
    | nil => simp [putStorage, writeSlots]
    | cons slot rest ih =>
      have later := ih (batch.putContractStorage written slot.1 slot.2)
      simp only [putStorage, map_some, List.foldl_cons, isSome_some, and_true] at later ⊢
      rw [later, held_putSlot]
      by_cases here : address = written
      · rw [if_pos here, if_pos here, if_pos here]
        rfl
      · rw [if_neg here, if_neg here, if_neg here]

/-- The memory of the executor after a balance is listed. A zero is left out where the memory has
one. -/
def paid (balance : U128) : Commit :=
  if 0 < balance ∨ 0 < commit.state.getBalance written then commit.putBalance written balance
  else commit

theorem batch_paid {balance : U128} :
    (commit.paid written balance).batch.isSome = commit.batch.isSome := by
  unfold paid putBalance
  split <;> simp

def counted (nonce : U64) : Commit :=
  if 0 < nonce ∨ 0 < commit.state.getNonce written then commit.putNonce written nonce else commit

def coded : Option Bytes → Commit
  | some code => if code.isEmpty then commit else commit.putContractCode written code
  | none => commit

theorem apply_modify_eq : commit.apply (.modify written balance nonce code slots resetStorage) =
      if 2 ^ 128 ≤ balance ∨ 2 ^ 64 ≤ nonce then none
      else some ((((commit.paid written (BitVec.ofNat 128 balance)).counted written
        (BitVec.ofNat 64 nonce)).coded written code).putStorage written slots) := by
  rfl

theorem eq_of_not_pos {left right : BitVec w} (neither : ¬(0 < left ∨ 0 < right)) :
    left = right := by
  rw [not_or, BitVec.not_lt, BitVec.not_lt] at neither
  rw [BitVec.le_zero_iff.mp neither.1, BitVec.le_zero_iff.mp neither.2]

theorem held_paid {balance : U128} : (commit.paid written balance).held address =
    if address = written then
      { commit.held address with
        cachedBalance := balance
        account :=
          { (commit.held address).account with
            balance :=
              if 0 < balance ∨ 0 < (commit.held address).cachedBalance then balance
              else (commit.held address).account.balance } }
    else commit.held address := by
  unfold paid
  by_cases here : address = written
  · subst here
    by_cases positive : 0 < balance ∨ 0 < commit.state.getBalance address
    · have cached : 0 < balance ∨ 0 < (commit.held address).cachedBalance := positive
      simp only [if_pos positive, if_pos cached, held_putBalance]
    · have cached : ¬(0 < balance ∨ 0 < (commit.held address).cachedBalance) := positive
      simp only [if_neg positive, if_neg cached, if_true]
      rw [eq_of_not_pos cached]
  · split
    · rw [held_putBalance, if_neg here]
    · rfl

theorem held_counted {nonce : U64} : (commit.counted written nonce).held address =
    if address = written then
      { commit.held address with
        cachedNonce := nonce
        account :=
          { (commit.held address).account with
            nonce :=
              if 0 < nonce ∨ 0 < (commit.held address).cachedNonce then nonce
              else (commit.held address).account.nonce } }
    else commit.held address := by
  unfold counted
  by_cases here : address = written
  · subst here
    by_cases positive : 0 < nonce ∨ 0 < commit.state.getNonce address
    · have cached : 0 < nonce ∨ 0 < (commit.held address).cachedNonce := positive
      simp only [if_pos positive, if_pos cached, held_putNonce]
    · have cached : ¬(0 < nonce ∨ 0 < (commit.held address).cachedNonce) := positive
      simp only [if_neg positive, if_neg cached, if_true]
      rw [eq_of_not_pos cached]
  · split
    · rw [held_putNonce, if_neg here]
    · rfl

theorem held_coded {code : Option Bytes} : (commit.coded written code).held address =
    if address = written then
      { commit.held address with
        account :=
          { (commit.held address).account with
            code := if code = some [] then (commit.held address).account.code
              else code.getD (commit.held address).account.code } }
    else commit.held address := by
  cases code with
  | none => simp [coded]
  | some code =>
    cases code with
    | nil => simp [coded]
    | cons byte rest => simp [coded, held_putContractCode]

theorem held_apply {commit after : Commit} (done : commit.apply change = some after)
    {address : Address} : after.held address =
      if address = change.address then (commit.held address).applied change
      else commit.held address := by
  cases change with
  | delete written =>
    cases done
    rw [held_putNonce, held_putBalance]
    by_cases here : address = written
    · simp [EvmChange.address, here, HeldAccount.applied]
    · simp [EvmChange.address, here]
  | modify written balance nonce code slots resetStorage =>
    rw [apply_modify_eq] at done
    split at done
    · cases done
    · cases done
      have stored : ∀ commit : Commit, commit.batch.isSome = (commit.held address).persistent :=
        fun _ => rfl
      rw [held_putStorage, stored, held_coded, held_counted, held_paid]
      by_cases here : address = written
      · simp only [here, EvmChange.address, if_true, true_and, HeldAccount.applied]
        split <;> rfl
      · simp [EvmChange.address, here]

/-- The balance of an account as far as the database knows it. -/
def storedBalance : Option U128 :=
  commit.batch.bind fun batch => batch.getBalance address

section Stored

variable {written address}

theorem storedBalance_putBalance_of_ne {balance : U128} (other : address ≠ written) :
    (commit.putBalance written balance).storedBalance address = commit.storedBalance address := by
  obtain ⟨state, batch⟩ := commit
  cases batch <;> simp [storedBalance, putBalance, other]

theorem storedBalance_putNonce {nonce : U64} :
    (commit.putNonce written nonce).storedBalance address = commit.storedBalance address := by
  obtain ⟨state, batch⟩ := commit
  cases batch <;> simp [storedBalance, putNonce]

theorem storedBalance_counted {nonce : U64} :
    (commit.counted written nonce).storedBalance address = commit.storedBalance address := by
  unfold counted
  split
  · exact storedBalance_putNonce _
  · rfl

theorem storedBalance_coded {code : Option Bytes} :
    (commit.coded written code).storedBalance address = commit.storedBalance address := by
  obtain ⟨state, batch⟩ := commit
  unfold coded
  split
  · split
    · rfl
    · cases batch <;> simp [storedBalance, putContractCode]
  · rfl

theorem storedBalance_putStorage :
    (commit.putStorage written slots).storedBalance address = commit.storedBalance address := by
  obtain ⟨state, batch⟩ := commit
  have kept : ∀ batch : StateDatabase,
      (slots.foldl (fun batch slot => batch.putContractStorage written slot.1 slot.2)
        batch).getBalance address = batch.getBalance address := by
    induction slots with
    | nil => exact fun _ => rfl
    | cons slot rest ih =>
      exact fun batch => (ih _).trans (StateDatabase.getBalance_putContractStorage ..)
  cases batch <;> simp [storedBalance, putStorage, kept]

theorem storedBalance_apply_of_ne {commit after : Commit} (done : commit.apply change = some after)
    (other : address ≠ change.address) :
    after.storedBalance address = commit.storedBalance address := by
  cases change with
  | delete written =>
    cases done
    rw [storedBalance_putNonce]
    exact storedBalance_putBalance_of_ne _ other
  | modify written balance nonce code slots resetStorage =>
    rw [apply_modify_eq] at done
    split at done
    · cases done
    · cases done
      rw [storedBalance_putStorage, storedBalance_coded, storedBalance_counted]
      unfold paid
      split
      · exact storedBalance_putBalance_of_ne _ other
      · rfl

end Stored

theorem exists_apply_iff {commit : Commit} {change : EvmChange} :
    (∃ after, commit.apply change = some after) ↔ change.Fits := by
  cases change with
  | delete written => exact ⟨fun _ => trivial, fun _ => ⟨_, rfl⟩⟩
  | modify written balance nonce code slots resetStorage =>
    rw [apply_modify_eq]
    by_cases large : 2 ^ 128 ≤ balance ∨ 2 ^ 64 ≤ nonce
    · rw [if_pos large]
      simp only [reduceCtorEq, exists_false, Fits, false_iff]
      omega
    · rw [if_neg large]
      simp only [some.injEq, exists_eq', Fits, true_iff]
      omega

end Commit

end EvmExecutor

/-- Nothing of the change is left out where the executor holds this: amounts fit their types, a zero
is listed only where the memory has another value or the account has it already, no code is removed,
slots to be reset are empty, slots are listed only with a database, and what is deleted has neither
code nor storage. -/
def EvmChange.Kept (change : EvmChange) (held : HeldAccount) : Prop :=
  match change with
  | .modify _ balance nonce code slots resetStorage =>
    (balance < 2 ^ 128 ∧ nonce < 2 ^ 64) ∧
      (balance = 0 → held.cachedBalance = 0 → held.account.balance = 0) ∧
      (nonce = 0 → held.cachedNonce = 0 → held.account.nonce = 0) ∧
      (code = some [] → held.account.code = []) ∧
      (held.persistent = true → resetStorage = true →
        ∀ key, key ∉ slots.map Prod.fst → held.account.storage key = 0) ∧
      (held.persistent = false → ∀ key, writeSlots (fun _ => 0) slots key = 0)
  | .delete _ => held.account.code = [] ∧ ∀ key, held.account.storage key = 0

/-- A word that is written only over others is the listed one. -/
theorem written_eq_iff {cached read : BitVec w} (fits : number < 2 ^ w) :
    (if 0 < BitVec.ofNat w number ∨ 0 < cached then BitVec.ofNat w number else read) =
      BitVec.ofNat w number ↔ (number = 0 → cached = 0 → read = 0) := by
  have zero : ∀ word : BitVec w, ¬0 < word ↔ word = 0 := by
    intro word
    rw [BitVec.not_lt]
    exact BitVec.le_zero_iff
  have number_zero : BitVec.ofNat w number = 0 ↔ number = 0 := by
    rw [← BitVec.toNat_inj]
    simp [Nat.mod_eq_of_lt fits]
  split
  · next written =>
    refine ⟨fun _ noNumber noCache => ?_, fun _ => rfl⟩
    rcases written with positive | positive
    · exact absurd (number_zero.mpr noNumber) fun same => (zero _).mpr same positive
    · exact absurd noCache fun same => (zero _).mpr same positive
  · next unwritten =>
    rw [not_or, zero, zero] at unwritten
    rw [unwritten.1]
    exact ⟨fun same _ _ => same, fun same => same (number_zero.mp unwritten.1) unwritten.2⟩

namespace EvmExecutor

theorem Commit.storage_of_not_persistent {commit : Commit} {address : Address}
    (memory : (commit.held address).persistent = false) :
    (commit.held address).account.storage = fun _ => 0 := by
  have none : commit.batch = none := by simpa [held] using memory
  simp [held, none]

theorem Commit.apply_eq_listed_iff (commit : Commit) (change : EvmChange) :
    (∃ after, commit.apply change = some after ∧
      (after.held change.address).account =
        EvmAccount.listed change (commit.held change.address).account) ↔
      change.Kept (commit.held change.address) := by
  have effect : (∃ after, commit.apply change = some after ∧
      (after.held change.address).account =
        EvmAccount.listed change (commit.held change.address).account) ↔
      change.Fits ∧ ((commit.held change.address).applied change).account =
        EvmAccount.listed change (commit.held change.address).account := by
    rw [← @exists_apply_iff commit]
    constructor
    · rintro ⟨after, done, same⟩
      rw [held_apply done, if_pos rfl] at same
      exact ⟨⟨after, done⟩, same⟩
    · rintro ⟨⟨after, done⟩, same⟩
      refine ⟨after, done, ?_⟩
      rw [held_apply done, if_pos rfl, same]
  rw [effect]
  cases change with
  | delete written =>
    simp [Fits, Kept, address, HeldAccount.applied, EvmAccount.listed, EvmAccount.empty, funext_iff]
  | modify written balance nonce code slots resetStorage =>
    have memory := @storage_of_not_persistent commit written
    dsimp only [address]
    generalize commit.held written = held at memory ⊢
    have codes : (if code = some [] then held.account.code else code.getD held.account.code) =
        code.getD held.account.code ↔ (code = some [] → held.account.code = []) := by
      split
      · next removed => simp [removed]
      · next other => simp [other]
    have storages : (if held.persistent =
        true then writeSlots held.account.storage slots else held.account.storage) =
        writeSlots (if resetStorage = true then fun _ => 0 else held.account.storage) slots ↔
        (held.persistent = true → resetStorage = true →
          ∀ key, key ∉ slots.map Prod.fst → held.account.storage key = 0) ∧
        (held.persistent = false → ∀ key, writeSlots (fun _ => 0) slots key = 0) := by
      cases persistent : held.persistent with
      | true =>
        cases resetStorage with
        | true => simpa using EvmAccount.writeSlots_eq_iff
        | false => simp
      | false =>
        rw [memory persistent]
        simp [eq_comm, funext_iff]
    rw [EvmAccount.ext_iff]
    simp only [HeldAccount.applied, EvmAccount.listed]
    rw [codes, storages]
    constructor
    · rintro ⟨fits, balances, nonces, rest⟩
      exact ⟨fits, (written_eq_iff fits.1).mp balances, (written_eq_iff fits.2).mp nonces, rest⟩
    · rintro ⟨fits, balances, nonces, rest⟩
      exact ⟨fits, (written_eq_iff fits.1).mpr balances, (written_eq_iff fits.2).mpr nonces, rest⟩

theorem Commit.batch_isSome_apply (done : apply commit change = some after) :
    after.batch.isSome = commit.batch.isSome := by
  have kept : (after.held change.address).persistent = (commit.held change.address).persistent := by
    rw [held_apply done, if_pos rfl]
    cases change <;> rfl
  exact kept

theorem Commit.batch_isSome_of_foldlM {changes : List EvmChange}
    (done : changes.foldlM apply commit = some after) :
    after.batch.isSome = commit.batch.isSome := by
  induction changes generalizing commit with
  | nil =>
    cases done
    rfl
  | cons change rest ih =>
    rw [List.foldlM_cons, bind_eq_bind, bind_eq_some_iff] at done
    obtain ⟨middle, first, done⟩ := done
    exact (ih done).trans (batch_isSome_apply first)

variable (executor : EvmExecutor) (database : Option StateDatabase)

def accounts (address : Address) : EvmAccount where
  balance := executor.getAccountBalance database address
  nonce := executor.getAccountNonce database address
  code := (executor.getContractCode database address).getD []
  storage := fun key => (executor.getContractStorage database address key).getD 0

def held (address : Address) : HeldAccount where
  cachedBalance := executor.state.getBalance address
  cachedNonce := executor.state.getNonce address
  persistent := (executor.store database).isSome
  account := executor.accounts database address

/-- All accounts as a list of changes lists them. -/
def listed (changes : List EvmChange) : Address → EvmAccount :=
  changes.foldl (KeyedChanges.wanted address EvmAccount.listed) (executor.accounts database)

/-- The changes are committed, every account reads as it is listed, and the balances of any accounts
add up to what they did if those that are listed do. -/
def Faithful (changes : List EvmChange) : Prop :=
  ∃ committed stored, executor.commitChanges database changes = some (committed, stored) ∧
    committed.accounts stored = executor.listed database changes ∧
    ∀ addresses : Finset Address,
      ∑ address ∈ addresses, (executor.listed database changes address).balance.toNat =
        ∑ address ∈ addresses, (executor.accounts database address).balance.toNat →
      ∑ address ∈ addresses, (committed.accounts stored address).balance.toNat =
        ∑ address ∈ addresses, (executor.accounts database address).balance.toNat

/-- Changes to distinct accounts are committed as they are listed exactly if each of them is
kept. -/
theorem faithful_iff {changes : List EvmChange} (distinct : (changes.map address).Nodup) :
    executor.Faithful database changes ↔
      ∀ change ∈ changes, change.Kept (executor.held database change.address) := by
  let start : Commit := { state := executor.state, batch := executor.store database }
  have sequence := @KeyedChanges.foldlM_wanted_iff _ _ _ _ _ _ Commit.apply address Commit.held
    HeldAccount.account EvmAccount.listed Kept
    (fun _ _ _ done other elsewhere => by rw [Commit.held_apply done, if_neg elsewhere])
    Commit.apply_eq_listed_iff changes distinct start
  rw [show (∀ change ∈ changes, change.Kept (executor.held database change.address)) ↔
    ∀ change ∈ changes, change.Kept (start.held change.address) from Iff.rfl, ← sequence]
  -- after the commit the executor reads what the commit holds
  have reads : ∀ {commit : Commit}, changes.foldlM Commit.apply start = some commit →
      EvmExecutor.accounts { executor with state := commit.state }
        (if executor.persistent then commit.batch else database) = fun address =>
          (commit.held address).account := by
    intro commit done
    have stored : store { executor with state := commit.state }
        (if executor.persistent then commit.batch else database) = commit.batch := by
      unfold store
      cases persistent : executor.persistent with
      | true => rfl
      | false =>
        have memory : commit.batch = none := by
          rw [← not_isSome_iff_eq_none, Commit.batch_isSome_of_foldlM done]
          simp [start, store, persistent]
        simp [memory]
    unfold accounts getAccountBalance getAccountNonce getContractCode getContractStorage
    rw [stored]
    rfl
  constructor
  · rintro ⟨committed, stored, done, shown, -⟩
    obtain ⟨commit, folded, pair⟩ := map_eq_some_iff.mp done
    cases pair
    exact ⟨commit, folded, (reads folded).symm.trans shown⟩
  · rintro ⟨commit, folded, shown⟩
    have same := (reads folded).trans shown
    refine ⟨_, _, map_eq_some_iff.mpr ⟨commit, folded, rfl⟩, same, fun addresses conserved => ?_⟩
    rw [same]
    exact conserved

/-- An executor after a restart: the balance of account 1 is in the database only. -/
def restarted : EvmExecutor where
  state := EvmState.empty
  persistent := true
  blockHashes := []

def restartedStore : StateDatabase :=
  (StateDatabase.empty.putBalance 1 5).putContractCode 3 [96]

/-- Account 1 pays all it has to account 2, and the contract at 3 destroys itself. -/
def fullPayment : List EvmChange :=
  [.modify 1 0 1 none [] false, .modify 2 5 0 none [] false, .delete 3]

/-- The payment of a part, which is kept. -/
def partPayment : List EvmChange :=
  [.modify 1 2 1 none [(7, 8)] false, .modify 2 3 0 none [] true]

theorem partPayment_faithful : restarted.Faithful (some restartedStore) partPayment := by
  refine (restarted.faithful_iff (some restartedStore) (by decide)).mpr ?_
  have unwritten : ∀ key, ((restarted.held (some restartedStore) 2).account.storage key) =
      0 := fun _ => rfl
  intro change member
  rcases List.mem_pair.mp member with rfl | rfl
  · refine ⟨by decide, ?_, ?_, ?_, ?_, ?_⟩ <;> intro impossible <;> cases impossible
    intro impossible
    cases impossible
  · refine ⟨by decide, ?_, fun _ _ => rfl, ?_, fun _ _ key _ => unwritten key, ?_⟩ <;>
      intro impossible <;> cases impossible

/-- The payer keeps what it paid, and the contract keeps its code. -/
theorem fullPayment_not_faithful :
    ∑ address ∈ {1, 2}, (restarted.listed (some restartedStore) fullPayment address).balance.toNat =
        ∑ address ∈ {1, 2}, (restarted.accounts (some restartedStore) address).balance.toNat ∧
      (∃ committed stored, restarted.commitChanges (some restartedStore) fullPayment =
        some (committed, stored) ∧
        (committed.accounts stored 1).balance = 5 ∧ (committed.accounts stored 2).balance = 5 ∧
        (committed.accounts stored 3).code = [96]) ∧
      ¬restarted.Faithful (some restartedStore) fullPayment := by
  refine ⟨by decide +kernel,
    ⟨_, _, rfl, by decide +kernel, by decide +kernel, by decide +kernel⟩, ?_⟩
  rintro ⟨committed, stored, done, shown, -⟩
  cases done
  have payer := congrArg EvmAccount.balance (congrFun shown 1)
  exact absurd payer (by decide +kernel)

end EvmExecutor

end IronDag
