import IronDag.Chain.Transaction
import IronDag.Lib.Table
import IronDag.Lib.Vec

namespace IronDag

inductive OrderingPolicy where
  | fifo
  | random
  | feeBased
  | hybrid
  | timeWeighted
  deriving DecidableEq, Repr

structure OrderingContext where
  arrivalTimes : Table Hash U64
  currentTime : U64

namespace OrderingContext

def recordArrival (context : OrderingContext) (txHash : Hash) (timestamp : U64) : OrderingContext :=
  { context with arrivalTimes := context.arrivalTimes.insert txHash timestamp }

def getAge (context : OrderingContext) (txHash : Hash) : U64 :=
  match context.arrivalTimes.lookup txHash with
  | some arrival => Word.saturatingSub context.currentTime arrival
  | none => 0

end OrderingContext

/-- The priority fee, or the legacy fee in its place. -/
def Transaction.orderingFee (tx : Transaction) : U128 :=
  tx.maxPriorityFeePerGas.getD tx.fee

def compareWords {w : ℕ} (left right : BitVec w) : Ordering :=
  compare left.toNat right.toNat

/-- `partial_cmp` of two floating-point numbers; nothing is greater or less than a NaN. -/
def compareScores (left right : Float) : Ordering :=
  if left < right then .lt else if right < left then .gt else .eq

namespace OrderingContext

variable (context : OrderingContext)

/-- The fee as a share of the largest one, and the age up to a minute, in the weights 0.7 and
0.3. -/
def hybridScore (maxFee : Float) (tx : Transaction) : Float :=
  let age := Float.ofNat (context.getAge tx.hash).toNat
  let feeScore := Float.ofNat tx.orderingFee.toNat / maxFee * 0.7
  let ageBonus := (if age < 60.0 then age else 60.0) / 60.0 * 0.3
  feeScore + ageBonus

def compareByFee (left right : Transaction) : Ordering :=
  match compareWords right.orderingFee left.orderingFee with
  | .eq => compareWords right.value left.value
  | other => other

def compareByHybridScore (maxFee : Float) (left right : Transaction) : Ordering :=
  compareScores (context.hybridScore maxFee right) (context.hybridScore maxFee left)

/-- Equal ages are always within five seconds of each other. -/
def compareByAge (left right : Transaction) : Ordering :=
  match compareWords (context.getAge right.hash) (context.getAge left.hash) with
  | .eq => compareWords right.orderingFee left.orderingFee
  | other => other

end OrderingContext

/-- The largest fee of the list, and 1 without one. -/
def maxOrderingFee (transactions : List Transaction) : Float :=
  Float.ofNat (((transactions.map fun tx => tx.orderingFee.toNat).max?).getD 1)

/-- The Fisher-Yates shuffle with the picks `gen_range(0..=i)` of the random generator. -/
def shuffle {α : Type} (picks : (i : ℕ) → Fin (i + 1)) (elements : List α) : List α :=
  (List.range' 1 (elements.length - 1)).reverse.foldl
    (fun shuffled i => Vec.swap shuffled i (picks i)) elements

def orderTransactions (policy : OrderingPolicy) (context : OrderingContext)
    (picks : (i : ℕ) → Fin (i + 1)) (transactions : List Transaction) : List Transaction :=
  match policy with
  | .fifo => transactions
  | .random => shuffle picks transactions
  | .feeBased => Vec.sortBy OrderingContext.compareByFee transactions
  | .hybrid => Vec.sortBy (context.compareByHybridScore (maxOrderingFee transactions)) transactions
  | .timeWeighted => Vec.sortBy context.compareByAge transactions

theorem shuffle_perm {picks : (i : ℕ) → Fin (i + 1)} {elements : List α} :
    (shuffle picks elements).Perm elements := by
  have kept : ∀ (indexes : List ℕ) (shuffled : List α),
      (indexes.foldl (fun shuffled i => Vec.swap shuffled i (picks i)) shuffled).Perm shuffled := by
    intro indexes
    induction indexes with
    | nil => exact fun shuffled => List.Perm.refl shuffled
    | cons index rest ih => exact fun shuffled => (ih _).trans Vec.swap_perm
  exact kept _ elements

/-- No policy adds or loses a transaction. -/
theorem orderTransactions_perm {policy : OrderingPolicy} {context : OrderingContext}
    {picks : (i : ℕ) → Fin (i + 1)} {transactions : List Transaction} :
    (orderTransactions policy context picks transactions).Perm transactions := by
  cases policy with
  | fifo => exact List.Perm.refl transactions
  | random => exact shuffle_perm
  | feeBased | hybrid | timeWeighted => exact Vec.sortBy_perm

open List

/-- The transactions of each sender come in the order of their nonces. -/
def NonceOrdered (transactions : List Transaction) : Prop :=
  transactions.Pairwise fun earlier later => earlier.from = later.from → earlier.nonce ≤ later.nonce

instance : DecidablePred NonceOrdered := fun _ => inferInstanceAs (Decidable (Pairwise _ _))

section Shuffle

variable {α : Type} {elements : List α}

theorem foldl_swap_self {picks : (i : ℕ) → Fin (i + 1)} {indexes : List ℕ}
    (same : ∀ index ∈ indexes, picks index = index) :
    indexes.foldl (fun shuffled i => Vec.swap shuffled i (picks i)) elements = elements := by
  induction indexes with
  | nil => rfl
  | cons index rest ih =>
    have here : Vec.swap elements index index = elements := by
      unfold Vec.swap
      split
      · next low high read again =>
        rw [read] at again
        cases again
        obtain ⟨bound, rfl⟩ := List.getElem?_eq_some_iff.mp read
        rw [set_getElem_self, set_getElem_self]
      · rfl
    rw [foldl_cons, same index mem_cons_self, here]
    exact ih fun other listed => same other (mem_cons_of_mem _ listed)

theorem exists_shuffle_swap (order : first < second) (bound : second < elements.length) :
    ∃ picks, shuffle picks elements = Vec.swap elements second first := by
  have listed : second ∈ (range' 1 (elements.length - 1)).reverse := by
    rw [mem_reverse, mem_range'_1]
    omega
  have once : (range' 1 (elements.length - 1)).reverse.Nodup := nodup_reverse.mpr nodup_range'
  obtain ⟨before, after, split⟩ := append_of_mem listed
  rw [split, nodup_append, nodup_cons] at once
  refine ⟨fun i => if i = second then ⟨min first i, by omega⟩ else Fin.last i, ?_⟩
  rw [shuffle, split, foldl_append, foldl_cons, foldl_swap_self, foldl_swap_self, if_pos rfl,
    Fin.val_mk, Nat.min_eq_left order.le]
  · intro index member
    rw [if_neg fun same => once.2.2 index member second mem_cons_self same]
    rfl
  · intro index member
    rw [if_neg fun same => once.2.1.1 (by rwa [same] at member)]
    rfl

end Shuffle

theorem compareWords_then_ne_gt {low high : BitVec w} {low' high' : BitVec v} :
    (compareWords low high).then (compareWords low' high') ≠ .gt ↔
      low.toNat < high.toNat ∨ low.toNat = high.toNat ∧ low'.toNat ≤ high'.toNat := by
  have greater : ∀ {u} {left right : BitVec u}, compareWords left right = .gt ↔
      right.toNat < left.toNat :=
    Nat.compare_eq_gt
  have equal : compareWords low high = .eq ↔ low.toNat = high.toNat := Nat.compare_eq_eq
  rw [ne_eq, Ordering.then_eq_gt, greater, greater, equal]
  omega

theorem compareScores_total (low high : Float) :
    compareScores low high ≠ .gt ∨ compareScores high low ≠ .gt := by
  by_cases above : high < low <;> by_cases below : low < high <;> simp [compareScores, above, below]

/-- A sort by this comparison leaves the transactions of each sender in the order of their
nonces. -/
def Undisturbed (compare : Transaction → Transaction → Ordering) (transactions : List Transaction) :
    Prop :=
  transactions.Pairwise fun earlier later => earlier.from = later.from →
    if compare earlier later = .gt then later.nonce ≤ earlier.nonce else earlier.nonce ≤ later.nonce

/-- The comparison orders the listed transactions. -/
def Ranks (compare : Transaction → Transaction → Ordering) (transactions : List Transaction) :
    Prop :=
  ∀ first ∈ transactions, ∀ second ∈ transactions, ∀ third ∈ transactions,
    compare first second ≠ .gt → compare second third ≠ .gt → compare first third ≠ .gt

theorem nonceOrdered_sortBy {compare : Transaction → Transaction → Ordering}
    (ranks : Ranks compare transactions)
    (total : ∀ left right, compare left right ≠ .gt ∨ compare right left ≠ .gt) :
    NonceOrdered (Vec.sortBy compare transactions) ↔ Undisturbed compare transactions := by
  rw [NonceOrdered, Vec.pairwise_sortBy_iff_of_mem ranks total]
  refine List.Pairwise.iff fun earlier later => ?_
  split
  · exact ⟨fun turned same => turned same.symm, fun turned same => turned same.symm⟩
  · exact Iff.rfl

/-- A comparison by two words, the larger ones first, ranks all transactions. -/
theorem nonceOrdered_sortByWords {compare : Transaction → Transaction → Ordering}
    {first : Transaction → BitVec w}
    {second : Transaction → BitVec v} (byWords : ∀ left right, compare left right =
      (compareWords (first right) (first left)).then (compareWords (second right) (second left))) :
    NonceOrdered (Vec.sortBy compare transactions) ↔ Undisturbed compare transactions := by
  refine nonceOrdered_sortBy (fun one _ two _ three _ => ?_) fun left right => ?_
  · simp only [byWords, compareWords_then_ne_gt]
    omega
  · simp only [byWords, compareWords_then_ne_gt]
    omega

theorem nonceOrdered_shuffle {transactions : List Transaction} :
    (∀ picks, NonceOrdered (shuffle picks transactions)) ↔
      transactions.Pairwise fun left right => left.from = right.from →
        left.nonce = right.nonce := by
  constructor
  · intro ordered
    have unmoved := ordered fun i => Fin.last i
    rw [shuffle, foldl_swap_self fun _ _ => rfl] at unmoved
    rw [pairwise_iff_getElem]
    intro first second firstBound secondBound order same
    obtain ⟨picks, swapped⟩ := exists_shuffle_swap order secondBound
    have kept := pairwise_iff_getElem.mp unmoved first second firstBound secondBound order same
    have turned := ordered picks
    rw [swapped, Vec.swap, getElem?_eq_getElem firstBound, getElem?_eq_getElem secondBound,
      NonceOrdered, pairwise_iff_getElem] at turned
    have exchanged :=
      turned first second (by simpa using firstBound) (by simpa using secondBound) order
    rw [getElem_set_self, getElem_set_ne order.ne, getElem_set_self] at exchanged
    exact BitVec.le_antisymm kept (exchanged same.symm)
  · intro alike picks
    have still := ((@shuffle_perm _ picks transactions).pairwise_iff fun {_ _} same sender =>
      (same sender.symm).symm).mpr alike
    exact still.imp fun same sender => BitVec.le_of_eq (same sender)

/-- What a policy needs of a list so that the nonces of each sender come in order. -/
def KeepsNonces (policy : OrderingPolicy) (context : OrderingContext)
    (transactions : List Transaction) : Prop :=
  match policy with
  | .fifo => NonceOrdered transactions
  | .random => transactions.Pairwise fun left right =>
    left.from = right.from → left.nonce = right.nonce
  | .feeBased => Undisturbed OrderingContext.compareByFee transactions
  | .hybrid => Undisturbed (context.compareByHybridScore (maxOrderingFee transactions)) transactions
  | .timeWeighted => Undisturbed context.compareByAge transactions

/-- Each policy permutes every list, and puts the nonces of each sender in order exactly for the
lists that it needs. The scores of the hybrid policy are taken to be ordered by their comparison, as
numbers are. -/
theorem orderTransactions_nonceOrdered_iff (policy : OrderingPolicy) (context : OrderingContext)
    (transactions : List Transaction) (scored : policy = .hybrid →
      Ranks (context.compareByHybridScore (maxOrderingFee transactions)) transactions) :
    (∀ picks, (orderTransactions policy context picks transactions).Perm transactions ∧
        NonceOrdered (orderTransactions policy context picks transactions)) ↔
      KeepsNonces policy context transactions := by
  simp only [orderTransactions_perm, true_and]
  have always : ∀ {fact : Prop}, (((i : ℕ) → Fin (i + 1)) → fact) ↔ fact := forall_const _
  cases policy with
  | fifo => exact @always (NonceOrdered transactions)
  | random => exact nonceOrdered_shuffle
  | feeBased => exact always.trans (nonceOrdered_sortByWords fun _ _ => rfl)
  | hybrid =>
    exact always.trans (nonceOrdered_sortBy (scored rfl) fun _ _ => compareScores_total _ _)
  | timeWeighted => exact always.trans (nonceOrdered_sortByWords fun _ _ => rfl)

theorem ranks_pair {compare : Transaction → Transaction → Ordering}
    (self : ∀ tx, compare tx tx ≠ .gt)
    (left right : Transaction) : Ranks compare [left, right] := by
  intro one oneListed two twoListed three threeListed below above
  rcases mem_pair.mp oneListed with rfl | rfl <;> rcases mem_pair.mp twoListed with rfl | rfl <;>
    rcases mem_pair.mp threeListed with rfl | rfl <;>
      first | exact below | exact above | exact self _

/-- A transaction, and one with a higher fee in its place. -/
def replacement : List Transaction :=
  [Transaction.new Crypto.sample 1 2 5 1 0, Transaction.new Crypto.sample 1 2 5 2 0]

theorem replacement_ordered :
    KeepsNonces .hybrid ⟨∅, 0⟩ replacement ∧
      ∀ picks, (orderTransactions .hybrid ⟨∅, 0⟩ picks replacement).Perm replacement ∧
        NonceOrdered (orderTransactions .hybrid ⟨∅, 0⟩ picks replacement) := by
  have nonces : replacement.Pairwise fun earlier later => earlier.nonce = later.nonce := by
    decide +kernel
  have keeps : KeepsNonces .hybrid ⟨∅, 0⟩ replacement := by
    refine nonces.imp fun {earlier later} same _ => ?_
    rw [same, ite_self]
    exact BitVec.le_refl _
  refine ⟨keeps, (orderTransactions_nonceOrdered_iff .hybrid ⟨∅, 0⟩ replacement fun _ => ?_).mpr
    keeps⟩
  exact ranks_pair (fun tx => or_self_iff.mp (compareScores_total _ _)) _ _

/-- Two transactions of a sender, the second one with the higher fee. -/
def risingFees : List Transaction :=
  [Transaction.new Crypto.sample 1 2 5 1 0, Transaction.new Crypto.sample 1 2 5 2 1]

theorem risingFees_misordered :
    NonceOrdered risingFees ∧
      ¬NonceOrdered (orderTransactions .feeBased ⟨∅, 0⟩ (fun i => Fin.last i) risingFees) := by
  have turned : ∀ left right, OrderingContext.compareByFee left right = .gt →
      Vec.sortBy OrderingContext.compareByFee [left, right] = [right, left] := by
    intro left right larger
    simp [Vec.sortBy, mergeSort, larger]
  rw [orderTransactions, risingFees, turned _ _ (by decide +kernel)]
  decide +kernel

end IronDag
