import IronDag.Account.Privacy

namespace IronDag.PrivacyPool

/-- The commitment that the holder of a nullifier and its secret deposits with. -/
def commitmentFor (crypto : Crypto) (secret : Hash → Hash) (nullifier : Hash) : Hash :=
  crypto.keccak256 (Bytes.be nullifier ++ Bytes.be (secret nullifier))

/-- The balance covers the deposits that are not withdrawn. -/
def Solvent (pool : PrivacyPool) (balance : U128) : Prop :=
  pool.denomination.toNat * (pool.deposits.length - pool.spentNullifiers.card) ≤ balance.toNat

instance (pool : PrivacyPool) (balance : U128) : Decidable (pool.Solvent balance) :=
  inferInstanceAs (Decidable (_ ≤ _))

def Unused (pool : PrivacyPool) : Prop :=
  pool.deposits = [] ∧ pool.commitmentSet = ∅ ∧ pool.spentNullifiers = ∅

/-- Deposits and withdrawals are covered, the set of commitments is that of the deposits, and every
spent nullifier is one of those in question and belongs to a deposit. -/
structure Backed (commitment : Hash → Hash) (nullifiers : Set Hash) (pool : PrivacyPool)
    (balance : U128) : Prop where
  covered : pool.denomination.toNat * pool.deposits.length ≤
    balance.toNat + pool.denomination.toNat * pool.spentNullifiers.card
  recorded : pool.commitmentSet = (pool.deposits.map PoolDeposit.commitment).toFinset
  owned : ∀ nullifier ∈ pool.spentNullifiers, nullifier ∈ nullifiers ∧
    commitment nullifier ∈ pool.commitmentSet

variable {pool : PrivacyPool}

theorem Unused.backed (unused : pool.Unused) : pool.Backed commitment nullifiers balance := by
  obtain ⟨deposits, commitments, spent⟩ := unused
  refine ⟨?_, ?_, ?_⟩
  · rw [deposits]
    exact Nat.zero_le _
  · rw [deposits, commitments]
    rfl
  · intro nullifier member
    rw [spent] at member
    cases member

theorem deposit_eq_some : pool.deposit entry number = some after ↔
    entry ∉ pool.commitmentSet ∧ after =
      { pool with
        deposits := pool.deposits ++
          [{ commitment := entry, blockNumber := number, leafIndex := pool.deposits.length }]
        commitmentSet := insert entry pool.commitmentSet } := by
  unfold deposit
  by_cases known : entry ∈ pool.commitmentSet
  · simp [known]
  · simp [eq_comm]

theorem withdraw_eq_ok : pool.withdraw nullifier proof = .ok (amount, after) ↔
    nullifier ∉ pool.spentNullifiers ∧ pool.requireProof = false ∧ amount = pool.denomination ∧
      after = { pool with spentNullifiers := insert nullifier pool.spentNullifiers } := by
  unfold withdraw
  by_cases spent : nullifier ∈ pool.spentNullifiers
  · simp [spent]
  · cases required : pool.requireProof with
    | true =>
      rw [if_neg spent, if_pos rfl]
      split <;> simp
    | false => simp [spent, eq_comm]

namespace Backed

variable (backed : pool.Backed commitment nullifiers balance)

include backed

theorem mono (more : balance ≤ later) : pool.Backed commitment nullifiers later where
  covered := Nat.le_trans backed.covered (Nat.add_le_add_right more _)
  recorded := backed.recorded
  owned := backed.owned

theorem deposit (done : pool.deposit entry number = some after)
    (paid : balance.toNat + pool.denomination.toNat ≤ later.toNat) :
    after.Backed commitment nullifiers later := by
  obtain ⟨-, rfl⟩ := deposit_eq_some.mp done
  refine ⟨?_, ?_, fun nullifier spent =>
    (backed.owned nullifier spent).imp_right Finset.mem_insert_of_mem⟩
  · have covered := backed.covered
    simp only [List.length_append, List.length_singleton, Nat.mul_add]
    omega
  · rw [List.map_append, List.toFinset_append, ← backed.recorded]
    simp

/-- A nullifier that belongs to a deposit and is not spent yet leaves a deposit over. -/
theorem spent_lt (separated : Set.InjOn commitment nullifiers) (known : nullifier ∈ nullifiers)
    (unspent : nullifier ∉ pool.spentNullifiers)
    (member : commitment nullifier ∈ pool.commitmentSet) :
    pool.spentNullifiers.card < pool.deposits.length := by
  have owned : ∀ other ∈ insert nullifier pool.spentNullifiers,
      other ∈ nullifiers ∧ commitment other ∈ pool.commitmentSet := by
    intro other listed
    rcases Finset.mem_insert.mp listed with rfl | spent
    · exact ⟨known, member⟩
    · exact backed.owned other spent
  calc pool.spentNullifiers.card < (insert nullifier pool.spentNullifiers).card := by
        rw [Finset.card_insert_of_notMem unspent]
        exact Nat.lt_succ_self _
    _ ≤ pool.commitmentSet.card := Finset.card_le_card_of_injOn commitment
      (fun other listed => (owned other listed).2)
        (separated.mono fun other listed => (owned other listed).1)
    _ ≤ pool.deposits.length := by
        rw [backed.recorded]
        exact Nat.le_trans (List.toFinset_card_le _) (Nat.le_of_eq (List.length_map _))

theorem denomination_le (left : pool.spentNullifiers.card < pool.deposits.length) :
    pool.denomination ≤ balance := by
  have covered := backed.covered
  have more : pool.denomination.toNat * (pool.spentNullifiers.card + 1) ≤
      pool.denomination.toNat * pool.deposits.length := Nat.mul_le_mul_left _ left
  rw [Nat.mul_add] at more
  exact BitVec.le_def.mpr (by omega)

theorem withdraw (known : nullifier ∈ nullifiers) (unspent : nullifier ∉ pool.spentNullifiers)
    (member : commitment nullifier ∈ pool.commitmentSet)
    (paid : balance.toNat ≤ later.toNat + pool.denomination.toNat) :
    Backed commitment nullifiers
      { pool with spentNullifiers := insert nullifier pool.spentNullifiers } later := by
  refine ⟨?_, backed.recorded, ?_⟩
  · have covered := backed.covered
    simp only [Finset.card_insert_of_notMem unspent, Nat.mul_add]
    omega
  · intro other listed
    rcases Finset.mem_insert.mp listed with rfl | spent
    · exact ⟨known, member⟩
    · exact backed.owned other spent

theorem solvent : pool.Solvent balance := by
  have covered := backed.covered
  rw [Solvent, Nat.mul_sub]
  omega

/-- The nullifier belongs to a deposit that no spent nullifier belongs to. -/
theorem exists_own_deposit (separated : Set.InjOn commitment nullifiers)
    (known : nullifier ∈ nullifiers)
    (unspent : nullifier ∉ pool.spentNullifiers)
    (member : commitment nullifier ∈ pool.commitmentSet) :
    ∃ deposit ∈ pool.deposits, deposit.commitment = commitment nullifier ∧
      ∀ other ∈ pool.spentNullifiers, commitment other ≠ deposit.commitment := by
  rw [backed.recorded, List.mem_toFinset] at member
  obtain ⟨deposit, listed, carries⟩ := List.mem_map.mp member
  refine ⟨deposit, listed, carries, fun other spent same => unspent ?_⟩
  have identical : other = nullifier :=
    separated (backed.owned other spent).1 known (same.trans carries)
  exact identical ▸ spent

end Backed

end IronDag.PrivacyPool
