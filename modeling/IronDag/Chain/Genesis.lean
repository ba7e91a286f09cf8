import IronDag.Chain.Conservation
import IronDag.Lib.Hex

namespace IronDag

/-- The address is a text, with or without `0x`. -/
structure GenesisAllocation where
  address : List Char
  balance : U128
  deriving DecidableEq, Repr

namespace GenesisAllocation

def hexDigit (char : Char) : Option ℕ :=
  if char.toNat < 128 then Hex.digitValue (BitVec.ofNat 8 char.toNat) else none

variable (alloc : GenesisAllocation)

def text : String :=
  String.ofList alloc.address

def addrHex : List Char :=
  match alloc.address with
  | '0' :: 'x' :: rest => rest
  | whole => whole

/-- The length in bytes. -/
def hexLength : ℕ :=
  (alloc.addrHex.map Char.utf8Size).sum

def isHex : Bool :=
  alloc.addrHex.all fun char => (hexDigit char).isSome

def validate : Except String Unit :=
  let text := alloc.text
  let length := alloc.hexLength
  if length ≠ 40 then .error
    s!"Invalid address length for '{text}': expected 40 hex chars, got {length}"
  else if !alloc.isHex then .error s!"Invalid address format for '{text}': must be hexadecimal"
  else if alloc.balance = 0 then .error s!"Invalid balance for '{text}': must be greater than 0"
  else .ok ()

/-- The number that the digits stand for. -/
def account : Address :=
  BitVec.ofNat 160 (alloc.addrHex.foldl (fun number char => 16 * number + (hexDigit char).getD 0) 0)

def addressBytes : Except String Address :=
  let text := alloc.text
  if alloc.hexLength ≠ 40 || !alloc.isHex then .error s!"Invalid address format: {text}"
  else .ok alloc.account

/-- An allocation that is taken on top of a total. -/
def Fits (total : U128) : Prop :=
  alloc.validate = .ok () ∧ total.toNat + alloc.balance.toNat < 2 ^ 128

instance (total : U128) : Decidable (alloc.Fits total) :=
  inferInstanceAs (Decidable (_ ∧ _))

theorem addressBytes_of_validate (valid : alloc.validate = .ok ()) :
    alloc.addressBytes = .ok alloc.account ∧ 0 < alloc.balance.toNat := by
  unfold validate at valid
  dsimp only at valid
  split_ifs at valid with short plain none
  rw [addressBytes, if_neg (by simp [short, plain])]
  exact ⟨rfl, Nat.pos_of_ne_zero fun zero => none (BitVec.eq_of_toNat_eq zero)⟩

/-- The allocations ahead of the first that is refused. -/
def accepted (total : U128) : List GenesisAllocation → List GenesisAllocation
  | [] => []
  | alloc :: rest => if alloc.Fits total then alloc :: accepted (total + alloc.balance) rest else []

def lastOf (holder : Address) (allocations : List GenesisAllocation) : Option U128 :=
  (allocations.reverse.find? fun alloc => alloc.account = holder).map GenesisAllocation.balance

def allotted (holder : Address) (allocations : List GenesisAllocation) : ℕ :=
  ((allocations.filter fun alloc => alloc.account = holder).map
    fun alloc => alloc.balance.toNat).sum

variable {alloc}

theorem positive_of_accepted (listed : alloc ∈ accepted total allocations) :
    0 < alloc.balance.toNat := by
  induction allocations generalizing total with
  | nil => cases listed
  | cons head rest ih =>
    rw [accepted] at listed
    split at listed
    · next fits =>
      rcases List.mem_cons.mp listed with rfl | later
      · exact (alloc.addressBytes_of_validate fits.1).2
      · exact ih later
    · cases listed

theorem lastOf_cons : lastOf holder (alloc :: rest) =
    (lastOf holder rest).or (if alloc.account = holder then some alloc.balance else none) := by
  by_cases same : alloc.account = holder <;> simp [lastOf, List.find?_append, same]

theorem allotted_cons : allotted holder (alloc :: rest) =
    (if alloc.account = holder then alloc.balance.toNat else 0) + allotted holder rest := by
  by_cases same : alloc.account = holder <;> simp [allotted, same]

theorem sum_allotted (allocations : List GenesisAllocation) :
    ∑ holder : Address, allotted holder allocations =
      (allocations.map fun alloc => alloc.balance.toNat).sum := by
  induction allocations with
  | nil => simp [allotted]
  | cons alloc rest ih => simp [allotted_cons, Finset.sum_add_distrib, ih]

theorem lastOf_cases (holder : Address) (allocations : List GenesisAllocation) :
    (lastOf holder allocations = none ∧ holder ∉ allocations.map account ∧
      allotted holder allocations = 0) ∨
      ∃ amount, lastOf holder allocations = some amount ∧ holder ∈ allocations.map account ∧
        amount.toNat ≤ allotted holder allocations := by
  induction allocations with
  | nil => exact .inl ⟨rfl, by simp, rfl⟩
  | cons alloc rest ih =>
    rw [lastOf_cons, allotted_cons, List.map_cons, List.mem_cons]
    rcases ih with ⟨none, absent, zero⟩ | ⟨amount, found, listed, below⟩
    · rw [none, zero]
      by_cases same : alloc.account = holder
      · exact .inr ⟨alloc.balance, by simp [same], .inl same.symm, by simp [same]⟩
      · exact .inl (by simp [same, absent, Ne.symm same])
    · exact .inr ⟨amount, by rw [found]; rfl, .inr listed, Nat.le_add_left_of_le below⟩

theorem lastOf_eq_allotted_iff (positive : ∀ alloc ∈ allocations, 0 < alloc.balance.toNat) :
    (∀ holder, ((lastOf holder allocations).getD 0).toNat = allotted holder allocations) ↔
      (allocations.map account).Nodup := by
  induction allocations with
  | nil => simp [lastOf, allotted]
  | cons alloc rest ih =>
    obtain ⟨own, others⟩ := List.forall_mem_cons.mp positive
    rw [List.map_cons, List.nodup_cons, ← ih others]
    rcases lastOf_cases alloc.account rest with
      ⟨none, absent, zero⟩ | ⟨amount, found, listed, below⟩
    · refine ⟨fun whole => ⟨absent, fun holder => ?_⟩, fun whole holder => ?_⟩
      all_goals
        by_cases same : alloc.account = holder
      · rw [← same, none, zero]
        rfl
      · simpa [lastOf_cons, allotted_cons, same] using whole holder
      · rw [← same, lastOf_cons, allotted_cons, none, zero]
        simp
      · simpa [lastOf_cons, allotted_cons, same] using whole.2 holder
    · refine ⟨fun whole => ?_, fun whole => absurd listed whole.1⟩
      have doubled := whole alloc.account
      rw [lastOf_cons, allotted_cons, found, Option.some_or, Option.getD_some,
        if_pos rfl] at doubled
      omega

end GenesisAllocation

namespace Ledger

open GenesisAllocation

/-- The loop over the allocations, with their total so far. -/
def allocate (total : U128) : List GenesisAllocation → Fallible String Ledger Unit
  | [] => pure ()
  | alloc :: rest => do
      let text := alloc.text
      Fallible.ofExcept
        (alloc.validate.mapError fun reason => s!"Validation failed for '{text}': {reason}")
      let address ← Fallible.ofExcept
        (alloc.addressBytes.mapError fun reason => s!"Failed to parse address '{text}': {reason}")
      match Word.checkedAdd total alloc.balance with
      | none => throw "Total allocation overflow"
      | some next => do
        modify fun ledger => ledger.setBalance address alloc.balance
        allocate next rest

def applyGenesisAllocations (allocations : List GenesisAllocation) : Fallible String Ledger Unit :=
  allocate 0 allocations

theorem allocate_of_fits (fits : alloc.Fits total) : allocate total (alloc :: rest) ledger =
      allocate (total + alloc.balance) rest (ledger.setBalance alloc.account alloc.balance) := by
  rw [allocate, fits.1, (alloc.addressBytes_of_validate fits.1).1, Word.checkedAdd, if_pos fits.2]
  rfl

theorem allocate_of_refused (refused : ¬alloc.Fits total) :
    ∃ reason, allocate total (alloc :: rest) ledger = .error reason ledger := by
  rw [allocate]
  cases valid : alloc.validate with
  | error reason => exact ⟨_, rfl⟩
  | ok passed =>
    have large : ¬total.toNat + alloc.balance.toNat < 2 ^ 128 := fun small => refused ⟨valid, small⟩
    rw [(alloc.addressBytes_of_validate valid).1, Word.checkedAdd, if_neg large]
    exact ⟨_, rfl⟩

/-- The accepted allocations are written, whatever comes after them. -/
theorem allocate_cases (total : U128) (allocations : List GenesisAllocation) (ledger : Ledger) :
    let written := (accepted total allocations).foldl
      (fun ledger alloc => ledger.setBalance alloc.account alloc.balance) ledger
    (allocate total allocations ledger = .ok () written ∧
      accepted total allocations = allocations) ∨
      ∃ reason, allocate total allocations ledger = .error reason written ∧
        accepted total allocations ≠ allocations := by
  induction allocations generalizing total ledger with
  | nil => exact .inl ⟨rfl, rfl⟩
  | cons alloc rest ih =>
    by_cases fits : alloc.Fits total
    · rw [allocate_of_fits fits, accepted, if_pos fits]
      exact (ih _ _).imp (fun done => ⟨done.1, congrArg (alloc :: ·) done.2⟩)
        fun ⟨reason, failed, part⟩ =>
        ⟨reason, failed, fun whole => part (List.cons.inj whole).2⟩
    · obtain ⟨reason, failed⟩ := allocate_of_refused fits
      rw [accepted, if_neg fits]
      exact .inr ⟨reason, failed, nofun⟩

theorem getBalance_foldl {ledger : Ledger} {holder : Address} :
    (allocations.foldl (fun ledger alloc => ledger.setBalance alloc.account alloc.balance)
      ledger).getBalance holder = (lastOf holder allocations).getD (ledger.getBalance holder) := by
  induction allocations generalizing ledger with
  | nil => rfl
  | cons alloc rest ih =>
    rw [List.foldl_cons, ih, getBalance_setBalance, lastOf_cons]
    cases lastOf holder rest with
    | some amount => rfl
    | none => simp only [Option.none_or, eq_comm (a := holder), Option.getD_none]; split <;> rfl

/-- Every address holds what is allocated to it, and nobody holds more. -/
structure Allotted (allocations : List GenesisAllocation) (ledger : Ledger) : Prop where
  total : ledger.totalBalance = (allocations.map fun alloc => alloc.balance.toNat).sum
  each : ∀ address, (ledger.getBalance address).toNat = allotted address allocations

/-- On an empty chain a success is exact, and a failure leaves every balance as it was. -/
def GenesisExact (ledger : Ledger) (allocations : List GenesisAllocation) : Prop :=
  match applyGenesisAllocations allocations ledger with
  | .ok _ after => (∀ address, ledger.getBalance address = 0) → Allotted allocations after
  | .error _ after => ∀ address, after.getBalance address = ledger.getBalance address

/-- Allocations are exact and atomic where no two are for one account or, if one is refused, those
ahead of it come to the balances that are there. -/
theorem genesisExact_iff (ledger : Ledger) (allocations : List GenesisAllocation) :
    ledger.GenesisExact allocations ↔
      if accepted 0 allocations = allocations then
        (∀ holder, ledger.getBalance holder = 0) → (allocations.map account).Nodup
      else ∀ holder, ∀ amount ∈ lastOf holder (accepted 0 allocations), amount =
        ledger.getBalance holder := by
  unfold GenesisExact applyGenesisAllocations
  rcases allocate_cases 0 allocations ledger with ⟨done, whole⟩ | ⟨reason, failed, part⟩
  · rw [done, if_pos whole]
    refine imp_congr_right fun empty => ?_
    have positive : ∀ alloc ∈ allocations, 0 < alloc.balance.toNat := fun alloc listed =>
      positive_of_accepted (by rwa [whole])
    rw [whole, ← lastOf_eq_allotted_iff positive]
    refine ⟨fun exact holder => ?_, fun exact => ?_⟩
    · rw [← exact.each, getBalance_foldl, empty]
    · have each : ∀ holder,
          ((allocations.foldl (fun ledger alloc => ledger.setBalance alloc.account alloc.balance)
          ledger).getBalance holder).toNat = allotted holder allocations := by
        intro holder
        rw [getBalance_foldl, empty, exact]
      exact ⟨(Finset.sum_congr rfl fun holder _ => each holder).trans
        (sum_allotted allocations), each⟩
  · rw [failed, if_neg part]
    refine forall_congr' fun holder => ?_
    rw [getBalance_foldl]
    cases lastOf holder (accepted 0 allocations) <;> simp

/-- The address `1`, in digits. -/
def firstAccount : List Char :=
  List.replicate 39 '0' ++ ['1']

/-- The second of two allocations of one account replaces the first, and a refused allocation leaves
the one ahead of it in place. -/
theorem repeated_not_exact : ¬Ledger.new.GenesisExact
    [⟨firstAccount, 5⟩, ⟨'0' :: 'x' :: firstAccount, 7⟩] ∧
      ¬Ledger.new.GenesisExact [⟨firstAccount, 5⟩, ⟨[], 7⟩] := by
  have first : Fits ⟨firstAccount, 5⟩ 0 := by decide +kernel
  have refused : ¬Fits ⟨[], 7⟩ (0 + 5) := by decide +kernel
  constructor
  · intro exact
    have each := (exact fun _ => rfl).each 1
    revert each
    decide +kernel
  · intro exact
    rw [GenesisExact, applyGenesisAllocations, allocate_of_fits first] at exact
    obtain ⟨reason, failed⟩ : ∃ reason, allocate (0 + 5) [⟨[], 7⟩] _ = .error reason _ :=
      allocate_of_refused refused
    rw [failed] at exact
    have kept := exact 1
    revert kept
    decide +kernel

end Ledger

end IronDag
