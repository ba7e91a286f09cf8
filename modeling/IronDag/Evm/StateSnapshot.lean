import IronDag.Chain.Transaction
import IronDag.Lib.Commutation
import IronDag.Lib.Movement
import IronDag.Lib.Table
import Mathlib.Data.FinEnum

namespace IronDag

/-- Balances and nonces at a point in time. An address without an entry has balance and nonce 0. -/
structure StateSnapshot where
  balances : Table Address U128
  nonces : Table Address U64
  blockNumber : U64
  timestamp : U64
  deriving DecidableEq

inductive SnapshotError where
  | insufficientBalance («have» need : U128)
  | invalidNonce (expected got : U64)
  deriving DecidableEq, Repr

def SnapshotError.text : SnapshotError → String
  | insufficientBalance balance need =>
    s!"Insufficient balance: have {balance.toNat}, need {need.toNat}"
  | invalidNonce expected got => s!"Invalid nonce: expected {expected.toNat}, got {got.toNat}"

namespace StateSnapshot

def getBalance (snapshot : StateSnapshot) (address : Address) : U128 :=
  snapshot.balances.getD address 0

def getNonce (snapshot : StateSnapshot) (address : Address) : U64 :=
  snapshot.nonces.getD address 0

def setBalance (snapshot : StateSnapshot) (address : Address) (balance : U128) : StateSnapshot :=
  { snapshot with balances := snapshot.balances.insert address balance }

def setNonce (snapshot : StateSnapshot) (address : Address) (nonce : U64) : StateSnapshot :=
  { snapshot with nonces := snapshot.nonces.insert address nonce }

/-- A transaction that fails leaves the snapshot as it is. -/
def applyTransaction (snapshot : StateSnapshot) (tx : Transaction) :
    StateSnapshot × Except SnapshotError Unit :=
  let fromBalance := snapshot.getBalance tx.from
  let totalRequired := Word.saturatingAdd tx.value tx.fee
  if fromBalance < totalRequired then
    (snapshot, .error (.insufficientBalance fromBalance totalRequired))
  else
    let currentNonce := snapshot.getNonce tx.from
    if tx.nonce ≠ currentNonce then
      (snapshot, .error (.invalidNonce currentNonce tx.nonce))
    else
      let deducted := (snapshot.setBalance tx.from (fromBalance - totalRequired)).setNonce tx.from
        (Word.saturatingAdd currentNonce 1)
      if tx.to ≠ Address.zero then
        (deducted.setBalance tx.to
          (Word.saturatingAdd (deducted.getBalance tx.to) tx.value), .ok ())
      else
        (deducted, .ok ())

/-- The verdict on a transaction whose sender has this balance and this nonce. -/
def verdict (tx : Transaction) (balance : U128) (nonce : U64) : Except SnapshotError Unit :=
  if balance < Word.saturatingAdd tx.value tx.fee then
    .error (.insufficientBalance balance (Word.saturatingAdd tx.value tx.fee))
  else if tx.nonce ≠ nonce then
    .error (.invalidNonce nonce tx.nonce)
  else
    .ok ()

/-- The credit to the recipient; the zero address gets none. -/
def credit (tx : Transaction) (balances : Table Address U128) : Table Address U128 :=
  if tx.to ≠ Address.zero then
    balances.modifyD tx.to 0 fun balance => Word.saturatingAdd balance tx.value
  else
    balances

/-- The snapshot after a transaction that passes its checks. -/
def transfer (snapshot : StateSnapshot) (tx : Transaction) : StateSnapshot :=
  { snapshot with
    balances := credit tx (snapshot.balances.modifyD tx.from 0 fun balance =>
      balance - Word.saturatingAdd tx.value tx.fee)
    nonces := snapshot.nonces.modifyD tx.from 0 fun nonce => Word.saturatingAdd nonce 1 }

variable {snapshot : StateSnapshot} {balances : Table Address U128} {tx : Transaction}

theorem applyTransaction_eq : snapshot.applyTransaction tx =
      match verdict tx (snapshot.getBalance tx.from) (snapshot.getNonce tx.from) with
      | .error reason => (snapshot, .error reason)
      | .ok () => (snapshot.transfer tx, .ok ()) := by
  unfold applyTransaction verdict
  by_cases poor : snapshot.getBalance tx.from < Word.saturatingAdd tx.value tx.fee
  · simp [poor]
  · by_cases stale : tx.nonce ≠ snapshot.getNonce tx.from
    · simp [poor, stale]
    · by_cases burnt : tx.to ≠ Address.zero
      · simp only [if_neg poor, if_neg stale, if_pos burnt, transfer, credit]
        rfl
      · simp only [if_neg poor, if_neg stale, if_neg burnt, transfer, credit]
        rfl

theorem applyTransaction_snd : (snapshot.applyTransaction tx).2 =
      verdict tx (snapshot.getBalance tx.from) (snapshot.getNonce tx.from) := by
  rw [applyTransaction_eq]
  cases verdict tx (snapshot.getBalance tx.from) (snapshot.getNonce tx.from) <;> rfl

/-- `tx` takes nothing from `address` and gives nothing to it. -/
def Avoids (tx : Transaction) (address : Address) : Prop :=
  address ≠ tx.from ∧ (address = tx.to → tx.value = 0)

theorem saturatingAdd_zero {balance : U128} : Word.saturatingAdd balance 0 = balance := by
  apply BitVec.eq_of_toNat_eq
  rw [Word.toNat_saturatingAdd, show (0 : U128).toNat = 0 from rfl]
  omega

theorem getBalance_transfer (avoids : Avoids tx address) :
    (snapshot.transfer tx).getBalance address = snapshot.getBalance address := by
  unfold getBalance transfer credit
  split
  · rw [Table.getD_modifyD, Table.getD_modifyD, if_neg avoids.1]
    split
    · next same => rw [avoids.2 same, saturatingAdd_zero]
    · rfl
  · rw [Table.getD_modifyD, if_neg avoids.1]

theorem getNonce_transfer (avoids : Avoids tx address) :
    (snapshot.transfer tx).getNonce address = snapshot.getNonce address := by
  unfold getNonce transfer
  rw [Table.getD_modifyD, if_neg avoids.1]

theorem applyTransaction_fst (snapshot : StateSnapshot) (tx : Transaction) :
    (snapshot.applyTransaction tx).1 =
      match (snapshot.applyTransaction tx).2 with
      | .error _ => snapshot
      | .ok () => snapshot.transfer tx := by
  rw [applyTransaction_eq]
  cases verdict tx (snapshot.getBalance tx.from) (snapshot.getNonce tx.from) <;> rfl

/-- The sender's balance and nonce decide the verdict, so a transaction that avoids the sender
does not change it. -/
theorem verdict_of_avoids (avoids : Avoids first second.from) (snapshot : StateSnapshot) :
    ((snapshot.applyTransaction first).1.applyTransaction second).2 =
      (snapshot.applyTransaction second).2 := by
  rw [applyTransaction_snd, applyTransaction_snd]
  rw [applyTransaction_fst snapshot first]
  cases (snapshot.applyTransaction first).2 with
  | error reason => rfl
  | ok _ => rw [getBalance_transfer avoids, getNonce_transfer avoids]

/-- Neither transaction touches the other's sender, and they do not both pay one recipient. -/
structure Apart (first second : Transaction) : Prop where
  firstAvoids : Avoids first second.from
  secondAvoids : Avoids second first.from
  recipients : first.to = second.to → first.value = 0 ∨ second.value = 0

theorem credit_modifyD (avoids : address = tx.to → tx.value = 0) {change : U128 → U128} :
    credit tx (balances.modifyD address 0 change) =
      (credit tx balances).modifyD address 0 change := by
  unfold credit
  split
  · apply Table.modifyD_comm
    intro same value
    rw [avoids same, saturatingAdd_zero, saturatingAdd_zero]
  · rfl

theorem credit_comm (recipients : first.to = second.to → first.value = 0 ∨ second.value = 0) :
    credit first (credit second balances) = credit second (credit first balances) := by
  unfold credit
  split <;> split <;> try rfl
  apply Table.modifyD_comm
  intro same value
  rcases recipients same.symm with free | free <;> rw [free, saturatingAdd_zero, saturatingAdd_zero]

theorem transfer_comm (apart : Apart first second) (snapshot : StateSnapshot) :
    (snapshot.transfer first).transfer second = (snapshot.transfer second).transfer first := by
  have distinct : first.from ≠ second.from := apart.secondAvoids.1
  simp only [transfer, StateSnapshot.mk.injEq, and_true]
  constructor
  · rw [← credit_modifyD apart.firstAvoids.2, ← credit_modifyD apart.secondAvoids.2,
      credit_comm apart.recipients, Table.modifyD_comm]
    exact fun same => absurd same distinct
  · exact Table.modifyD_comm fun same => absurd same distinct

theorem independent_of_apart (apart : Apart first second) :
    Commutation.Independent applyTransaction first second where
  leftAnswer := verdict_of_avoids apart.secondAvoids
  rightAnswer := verdict_of_avoids apart.firstAvoids
  sameState := by
    intro snapshot
    rw [applyTransaction_fst (snapshot.applyTransaction first).1 second,
      applyTransaction_fst (snapshot.applyTransaction second).1 first,
      verdict_of_avoids apart.firstAvoids, verdict_of_avoids apart.secondAvoids,
      applyTransaction_fst snapshot first, applyTransaction_fst snapshot second]
    cases (snapshot.applyTransaction first).2 <;> cases (snapshot.applyTransaction second).2 <;>
      first
      | rfl
      | exact transfer_comm apart snapshot

@[irreducible] def total (balances : Table Address U128) : ℕ := ∑ address :
    Address, (balances.getD address 0).toNat

/-- What leaves all balances: the fee and a value sent to the zero address, unless the transaction
fails. -/
def taken : Transaction × Except SnapshotError Unit → ℕ
  | (tx, .ok _) => tx.fee.toNat + if tx.to = Address.zero then tx.value.toNat else 0
  | (_, .error _) => 0

theorem total_modifyD (balances : Table Address U128) (address : Address) (change : U128 → U128) :
    total (balances.modifyD address 0 change) + (balances.getD address 0).toNat =
      total balances + (change (balances.getD address 0)).toNat := by
  have replaced := Movement.total_replace (fun other => (balances.getD other 0).toNat)
    (fun other => ((balances.modifyD address 0 change).getD other 0).toNat) address
    (fun other different => by rw [Table.getD_modifyD, if_neg different])
  rw [Table.getD_modifyD, if_pos rfl] at replaced
  unfold total
  exact replaced

theorem getD_le_total (balances : Table Address U128) (address : Address) :
    (balances.getD address 0).toNat ≤ total balances := by
  have cleared : _ = _ + 0 := total_modifyD balances address fun _ => 0
  omega

theorem total_single (address : Address) (amount : U128) :
    total (Table.modifyD ∅ address 0 fun _ => amount) = amount.toNat := by
  have added : _ + 0 = _ + amount.toNat := total_modifyD ∅ address fun _ => amount
  have none : total ∅ = 0 := by
    unfold total
    exact Finset.sum_eq_zero fun _ _ => rfl
  rw [none, Nat.zero_add, Nat.add_zero] at added
  exact added

/-- Below the largest balance nothing saturates, and what is not taken stays. -/
theorem total_applyTransaction {snapshot : StateSnapshot}
    (bounded : total snapshot.balances + 1 < 2 ^ 128)
    (tx : Transaction) : total (snapshot.applyTransaction tx).1.balances +
      taken (tx, (snapshot.applyTransaction tx).2) = total snapshot.balances := by
  rw [applyTransaction_eq]
  cases passed : verdict tx (snapshot.getBalance tx.from) (snapshot.getNonce tx.from) with
  | error reason => exact Nat.add_zero _
  | ok _ =>
    have covered : Word.saturatingAdd tx.value tx.fee ≤ snapshot.balances.getD tx.from 0 := by
      unfold verdict at passed
      split at passed
      · cases passed
      · next enough => exact BitVec.not_lt.mp enough
    have sender := getD_le_total snapshot.balances tx.from
    have deducted :=
      total_modifyD snapshot.balances tx.from (· - Word.saturatingAdd tx.value tx.fee)
    rw [BitVec.toNat_sub_of_le covered, Word.toNat_saturatingAdd] at deducted
    rw [BitVec.le_def, Word.toNat_saturatingAdd] at covered
    dsimp only [taken, transfer, credit]
    generalize snapshot.balances.modifyD tx.from 0 _ = rest at deducted ⊢
    by_cases burned : tx.to = Address.zero
    · rw [if_pos burned, if_neg (not_not.mpr burned)]
      omega
    · rw [if_neg burned, if_pos burned]
      have receiver := getD_le_total rest tx.to
      have credited := total_modifyD rest tx.to (Word.saturatingAdd · tx.value)
      rw [Word.toNat_saturatingAdd] at credited
      omega

end StateSnapshot

end IronDag
