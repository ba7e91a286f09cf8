import IronDag.Chain.Effects
import IronDag.Chain.StoreReplica

namespace IronDag.Ledger

open StateDatabase (Adds kept_alike)

/-- Everything but the places where accounts are kept. -/
def others (ledger : Ledger) : Ledger :=
  { ledger with database := none, verkleState := none, accounts := ∅ }

/-- Two ledgers answer every read of an account alike and share everything else. -/
structure Alike (left right : Ledger) : Prop where
  database : Option.Rel StateDatabase.Alike left.database right.database
  verkle : left.verkleState.isSome = right.verkleState.isSome
  balances : ∀ address, left.getBalance address = right.getBalance address
  nonces : ∀ address, left.getNonce address = right.getNonce address
  others : left.others = right.others

theorem Alike.refl (ledger : Ledger) : Alike ledger ledger where
  database := StateDatabase.rel_self StateDatabase.Alike.refl _
  verkle := rfl
  balances := fun _ => rfl
  nonces := fun _ => rfl
  others := rfl

namespace Alike

variable (alike : Alike left right)

include alike

/-- Whatever does not depend on where accounts are kept is the same. -/
theorem same {α : Type} (read : Ledger → α)
    (independent : ∀ ledger : Ledger, read ledger.others = read ledger) :
    read left = read right := by
  rw [← independent left, alike.others, independent right]

theorem database_cases : (left.database = none ∧ right.database = none) ∨
    ∃ one two, left.database = some one ∧ right.database = some two ∧ one.Alike two := by
  have answers := alike.database
  generalize left.database = one at answers
  generalize right.database = two at answers
  cases answers with
  | none => exact .inl ⟨rfl, rfl⟩
  | some same => exact .inr ⟨_, _, rfl, rfl, same⟩

theorem verkle_none_iff : left.verkleState = none ↔ right.verkleState = none := by
  rw [← Option.not_isSome_iff_eq_none, ← Option.not_isSome_iff_eq_none, alike.verkle]

theorem nonceCached_iff (address : Address) : left.NonceCached address ↔
    right.NonceCached address := by
  unfold NonceCached
  rw [alike.verkle_none_iff]
  rcases alike.database_cases with ⟨noLeft, noRight⟩ | ⟨one, two, isLeft, isRight, answers⟩
  · simp [noLeft, noRight]
  · simp [isLeft, isRight, answers.nonces]

theorem memoryOnly_iff : left.MemoryOnly ↔ right.MemoryOnly := by
  unfold MemoryOnly
  rw [alike.verkle_none_iff]
  rcases alike.database_cases with ⟨noLeft, noRight⟩ | ⟨one, two, isLeft, isRight, -⟩
  · simp [noLeft, noRight]
  · simp [isLeft, isRight]

theorem writeBalance (address : Address) (balance : U128) (nonce : U64) :
    Alike (left.writeBalance address balance nonce) (right.writeBalance address balance nonce) where
  database := kept_alike.map (StateDatabase.blind_putBalance address balance).toAdds alike.database
  verkle := by simpa [Ledger.writeBalance] using alike.verkle
  balances := by
    intro read
    rw [getBalance_writeBalance, getBalance_writeBalance, alike.balances]
  nonces := by
    intro read
    by_cases other : read = address
    · subst other
      by_cases cached : left.NonceCached read
      · rw [getNonce_writeBalance_of_cached _ _ _ _ cached,
          getNonce_writeBalance_of_cached _ _ _ _ ((alike.nonceCached_iff read).mp cached)]
      · rw [getNonce_writeBalance_of_stored _ _ _ _ cached, alike.nonces,
          getNonce_writeBalance_of_stored _ _ _ _
            (fun stored => cached ((alike.nonceCached_iff read).mpr stored))]
    · rw [getNonce_writeBalance_of_ne _ _ _ _ _ other,
        getNonce_writeBalance_of_ne _ _ _ _ _ other, alike.nonces]
  others := alike.others

theorem writeNonce (address : Address) (nonce : U64) :
    Alike (left.writeNonce address nonce) (right.writeNonce address nonce) where
  database := kept_alike.map StateDatabase.blind_putNonce.toAdds alike.database
  verkle := by simpa [Ledger.writeNonce] using alike.verkle
  balances := by
    intro read
    rw [getBalance_writeNonce, getBalance_writeNonce, alike.balances]
  nonces := by
    intro read
    by_cases memory : left.MemoryOnly
    · rw [writeNonce_of_memoryOnly _ _ _ memory,
        writeNonce_of_memoryOnly _ _ _ (alike.memoryOnly_iff.mp memory), alike.nonces]
    · have persistent : ¬right.MemoryOnly := fun only => memory (alike.memoryOnly_iff.mpr only)
      by_cases other : read = address
      · subst other
        rw [getNonce_writeNonce_of_persistent _ _ _ memory,
          getNonce_writeNonce_of_persistent _ _ _ persistent]
      · rw [getNonce_writeNonce_of_ne _ _ _ _ other,
          getNonce_writeNonce_of_ne _ _ _ _ other, alike.nonces]
  others := alike.others

theorem change (change : Ledger → Ledger)
    (database : ∀ ledger, (change ledger).database = ledger.database)
    (verkle : ∀ ledger, (change ledger).verkleState = ledger.verkleState)
    (accounts : ∀ ledger, (change ledger).accounts = ledger.accounts)
    (others : ∀ ledger, (change ledger).others = (change ledger.others).others) :
    Alike (change left) (change right) where
  database := by
    rw [database, database]
    exact alike.database
  verkle := by
    rw [verkle, verkle]
    exact alike.verkle
  balances := by
    intro read
    have answers := alike.balances read
    unfold getBalance at answers ⊢
    rw [database, database, verkle, verkle, accounts, accounts]
    exact answers
  nonces := by
    intro read
    have answers := alike.nonces read
    unfold getNonce at answers ⊢
    rw [database, database, verkle, verkle, accounts, accounts]
    exact answers
  others := by rw [others, alike.others, ← others]

omit alike in
/-- How balances and nonces are read. -/
def answer {α : Type} (ledger : Ledger) (field : AccountState → α)
    (stored : StateDatabase → Option α) (absent : α) (address : Address) : α :=
  match ledger.verkleState with
  | some verkle => field (verkle.account address)
  | none =>
    ((ledger.database.bind stored).or ((ledger.accounts.lookup address).map field)).getD absent

/-- The write adds answers and takes none away. -/
theorem answer_mapDatabase (adds : Adds write) {absent : α}
    (reads : ∀ one two : StateDatabase, one.Alike two → stored one = stored two)
    (kept : ∀ database, stored (write database) = none → stored database = none)
    (before : answer left field stored absent address = answer right field stored absent address) :
    answer { left with database := left.database.map write } field stored absent address =
      answer { right with database := right.database.map write } field stored absent address := by
  unfold answer at before ⊢
  cases verkle : left.verkleState with
  | some one =>
    cases other : right.verkleState with
    | some two => simpa only [verkle, other] using before
    | none => simp [alike.verkle_none_iff.mpr other] at verkle
  | none =>
    simp only [verkle, alike.verkle_none_iff.mp verkle] at before ⊢
    rcases alike.database_cases with ⟨noLeft, noRight⟩ | ⟨one, two, isLeft, isRight, same⟩
    · simpa only [noLeft, noRight, Option.map_none] using before
    · simp only [isLeft, isRight, Option.map_some, Option.bind_some] at before ⊢
      rw [reads _ _ (adds.alike same)]
      cases unknown : stored (write two) with
      | some value => rfl
      | none =>
        have unknownBefore := kept two unknown
        rw [reads one two same, unknownBefore] at before
        exact before

theorem mapDatabase (adds : Adds write) :
    Alike { left with database := left.database.map write }
      { right with database := right.database.map write } where
  database := kept_alike.map adds alike.database
  verkle := alike.verkle
  balances read := alike.answer_mapDatabase adds (fun _ _ same => same.balances read)
    (fun database => adds.balances database read) (alike.balances read)
  nonces read := alike.answer_mapDatabase adds (fun _ _ same => same.nonces read)
    (fun database => adds.nonces database read) (alike.nonces read)
  others := alike.others

/-- Writing back a balance on one side, as long as it is the one that the database holds. -/
theorem setBalance_same (stored : left.database = none ∨ (left.verkleState = none ∧
      ∃ database balance, left.database = some database ∧
        database.getBalance address = some balance)) :
    Alike (left.setBalance address (left.getBalance address)) right where
  database := by
    rcases stored with absent | ⟨noVerkle, database, balance, present, known⟩
    · have same : (left.setBalance address (left.getBalance address)).database = left.database := by
        simp [Ledger.setBalance, Ledger.writeBalance, absent]
      rw [same]
      exact alike.database
    · rcases alike.database_cases with ⟨noLeft, -⟩ | ⟨one, two, isLeft, isRight, answers⟩
      · cases present.symm.trans noLeft
      · cases present.symm.trans isLeft
        have balanceRead : left.getBalance address = balance := by
          simp [Ledger.getBalance, noVerkle, present, known]
        have written : (left.setBalance address (left.getBalance address)).database =
            some (database.putBalance address balance) := by
          simp [Ledger.setBalance, Ledger.writeBalance, present, balanceRead]
        have back : (database.putBalance address balance).Alike database := by
          refine ⟨fun read => ?_, fun _ => rfl, fun _ => rfl, fun _ _ => rfl⟩
          rw [StateDatabase.getBalance_putBalance]
          split
          · next same => rw [same, known]
          · rfl
        rw [written, isRight]
        exact .some (back.trans answers)
  verkle := by simpa [Ledger.setBalance, Ledger.writeBalance] using alike.verkle
  balances := by
    intro read
    unfold Ledger.setBalance
    rw [getBalance_writeBalance]
    split
    · next same => rw [same, alike.balances]
    · exact alike.balances read
  nonces := by
    intro read
    rw [getNonce_setBalance, alike.nonces]
  others := alike.others

/-- What two nodes have to share while they handle a transaction: whether the registry can be
written, and the clock as long as there is no block to take the time from. -/
structure Matching (ledger : Ledger) (first second : Encounter) : Prop where
  writable : first.registryWritable = second.registryWritable
  clock : ledger.blocks.blocks = [] → first.now = second.now

theorem lastTimestamp (matching : Matching left first second) :
    left.lastTimestamp first.now = right.lastTimestamp second.now := by
  have blocks : left.blocks = right.blocks := alike.same Ledger.blocks fun _ => rfl
  unfold Ledger.lastTimestamp
  rw [← blocks]
  cases last : left.blocks.blocks.getLast? with
  | some block => rfl
  | none => exact matching.clock (List.getLast?_eq_none_iff.mp last)

end Alike

end IronDag.Ledger
