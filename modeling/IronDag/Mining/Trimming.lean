import IronDag.Chain.BlockChecks

namespace IronDag

/-- The search for the longest prefix that fits, given the serialized size of each; a prefix that
cannot be serialized ends it. -/
def trimSearch (size : ℕ → Option ℕ) (low high bestFit : ℕ) (positive : 0 < low) : ℕ :=
  if low ≤ high then
    let mid := (low + high) / 2
    match size mid with
    | some bytes =>
      if bytes ≤ maxBlockSize then trimSearch size (mid + 1) high mid (Nat.succ_pos mid)
      else trimSearch size low (mid - 1) bestFit positive
    | none => bestFit
  else bestFit
termination_by high + 1 - low

/-- The block with these transactions can be serialized and is not too large. -/
def fitsBlock (serializedSize : List Transaction → Option ℕ) (transactions : List Transaction) :
    Bool :=
  (serializedSize transactions).any fun bytes => bytes ≤ maxBlockSize

/-- `serializedSize` is what `bincode` makes of the block with the given transactions, if it
succeeds. -/
def trimBlockTransactions (serializedSize : List Transaction → Option ℕ)
    (transactions : List Transaction) : List Transaction :=
  if transactions = [] then []
  else
    match serializedSize transactions with
    | some bytes =>
      if bytes ≤ maxBlockSize then transactions
      else
        let avgTxSize := bytes / transactions.length
        let headerSize := bytes - avgTxSize * transactions.length
        let availableSpace := maxBlockSize - headerSize
        let estimatedCount := max (availableSpace / max avgTxSize 1) 1
        transactions.take (trimSearch (fun count => serializedSize (transactions.take count)) 1
          (min estimatedCount transactions.length) 1 Nat.one_pos)
    | none => transactions.take (max (transactions.length / 2) 1)

/-- The answer is the first guess, or the length of a prefix that was tried and fits. -/
theorem trimSearch_cases (size : ℕ → Option ℕ) (low high bestFit : ℕ) (positive : 0 < low) :
    trimSearch size low high bestFit positive = bestFit ∨
      (trimSearch size low high bestFit positive ≤ high ∧
        ∃ bytes ≤ maxBlockSize, size (trimSearch size low high bestFit positive) = some bytes) := by
  fun_induction trimSearch size low high bestFit positive with
  | case1 low high bestFit positive inside mid bytes read fits ih =>
    have below : mid ≤ high := by omega
    rcases ih with first | ⟨bound, found⟩
    · exact .inr ⟨by rw [first]; exact below, bytes, fits, by rw [first]; exact read⟩
    · exact .inr ⟨bound, found⟩
  | case2 low high bestFit positive inside mid bytes read large ih =>
    exact ih.imp id fun ⟨bound, found⟩ => ⟨by omega, found⟩
  | case3 low high bestFit positive inside mid read | case4 low high bestFit positive outside =>
    exact .inl rfl

theorem le_trimSearch (size : ℕ → Option ℕ) (low high bestFit : ℕ) (positive : 0 < low)
    (least : bestFit ≤ low) : bestFit ≤ trimSearch size low high bestFit positive := by
  fun_induction trimSearch size low high bestFit positive with
  | case1 low high bestFit positive inside mid bytes read fits ih =>
    exact le_trans (by omega) (ih (Nat.le_succ mid))
  | case2 low high bestFit positive inside mid bytes read large ih => exact ih least
  | case3 low high bestFit positive inside mid read | case4 low high bestFit positive outside =>
    exact Nat.le_refl _

/-- Where longer prefixes are larger, no prefix within the bounds that fits is longer than the
answer. -/
theorem trimSearch_longest {size : ℕ → ℕ} (monotone : Monotone size) (low high bestFit : ℕ)
    (positive : 0 < low)
    (least : bestFit ≤ low) (above : low ≤ count) (below : count ≤ high)
    (fits : size count ≤ maxBlockSize) :
    count ≤ trimSearch (fun count => some (size count)) low high bestFit positive := by
  fun_induction trimSearch (fun count => some (size count)) low high bestFit positive with
  | case1 low high bestFit positive inside mid bytes read small ih =>
    rcases Nat.lt_or_ge mid count with later | early
    · exact ih (Nat.le_succ mid) later below
    · exact early.trans (le_trimSearch _ _ _ _ _ (Nat.le_succ mid))
  | case2 low high bestFit positive inside mid bytes read large ih =>
    refine ih least above (Nat.le_sub_one_of_lt (Nat.lt_of_not_le fun reached => large ?_))
    exact Option.some.inj read ▸ (monotone reached).trans fits
  | case3 low high bestFit positive inside mid read => cases read
  | case4 low high bestFit positive outside => omega

variable {serializedSize : List Transaction → Option ℕ}

theorem trimBlockTransactions_eq_self_iff : trimBlockTransactions serializedSize transactions =
    transactions ↔
      transactions.length ≤ 1 ∨ fitsBlock serializedSize transactions = true := by
  unfold trimBlockTransactions fitsBlock
  by_cases nothing : transactions = []
  · simp [nothing]
  · rw [if_neg nothing]
    cases read : serializedSize transactions with
    | none =>
      simp only [List.take_eq_self_iff, Option.any_none, Bool.false_eq_true, or_false]
      omega
    | some bytes =>
      by_cases fits : bytes ≤ maxBlockSize
      · simp [fits]
      · have large : (some bytes).any (fun bytes => decide (bytes ≤ maxBlockSize)) =
            false := by simpa using fits
        simp only [if_neg fits, large, List.take_eq_self_iff, Bool.false_eq_true, or_false]
        constructor
        · intro whole
          -- A longer answer of the search would be a prefix that fits and is the whole list.
          rcases trimSearch_cases (fun count => serializedSize (transactions.take count)) 1
              (min (max ((maxBlockSize -
                (bytes - bytes / transactions.length * transactions.length)) /
                max (bytes / transactions.length) 1) 1) transactions.length) 1 Nat.one_pos with
                  guess | ⟨_, found⟩
          · exact guess ▸ whole
          · obtain ⟨small, bound, same⟩ := found
            rw [List.take_of_length_le whole, read] at same
            exact absurd (Option.some.inj same ▸ bound) fits
        · intro single
          exact single.trans (le_trimSearch _ _ _ _ Nat.one_pos (Nat.le_refl 1))

/-- The longest prefix whose block is not too large, and none of the transactions if not even the
first one fits. -/
structure LongestFit (serializedSize : List Transaction → Option ℕ)
    (transactions kept : List Transaction) : Prop where
  isPrefix : kept <+: transactions
  fits : kept ≠ [] → fitsBlock serializedSize kept = true
  longest : ∀ longer, longer <+: transactions → kept.length < longer.length →
    fitsBlock serializedSize longer = false

/-- A header and the transactions, each with a size of its own. -/
def blockSize (headerSize : ℕ) (size : Transaction → ℕ) (transactions : List Transaction) : ℕ :=
  headerSize + (transactions.map size).sum

/-- The first transaction fits, and so does each prefix that fits if its transactions had the
average size of all of them. -/
structure AverageFits (size : List Transaction → ℕ) (transactions : List Transaction) : Prop where
  first : size (transactions.take 1) ≤ maxBlockSize
  average : ∀ count, 1 < count → count ≤ transactions.length →
    size (transactions.take count) ≤ maxBlockSize →
    count * (size transactions / transactions.length) + size transactions % transactions.length ≤
      maxBlockSize

theorem longestFit_take_iff {size : List Transaction → ℕ} (nonzero : 0 < count)
    (short : count ≤ transactions.length) :
    LongestFit (some ∘ size) transactions (transactions.take count) ↔
      size (transactions.take count) ≤ maxBlockSize ∧
      ∀ more ≤ transactions.length, size (transactions.take more) ≤ maxBlockSize →
        more ≤ count := by
  have length : (transactions.take count).length = count := List.length_take_of_le short
  constructor
  · intro longest
    have kept : transactions.take count ≠ [] := List.ne_nil_of_length_pos (length.symm ▸ nonzero)
    refine ⟨by simpa [fitsBlock] using longest.fits kept,
      fun more bound fits => Nat.le_of_not_lt fun longer => ?_⟩
    have large := longest.longest (transactions.take more) (List.take_prefix _ _)
      (by rwa [length, List.length_take_of_le bound])
    simp [fitsBlock, Nat.not_lt.mpr fits] at large
  · rintro ⟨fits, longest⟩
    refine ⟨List.take_prefix _ _,
      fun _ => by simpa [fitsBlock] using fits, fun longer isPrefix more => ?_⟩
    rw [length] at more
    have large := mt (longest longer.length isPrefix.length_le) (Nat.not_le.mpr more)
    rw [← List.prefix_iff_eq_take.mp isPrefix] at large
    simpa [fitsBlock] using large

/-- The first guess, as a count of transactions of average size. -/
theorem le_estimatedCount_iff {bytes length : ℕ} (nonzero : 0 < length) (enough : length ≤ bytes)
    (several : 1 < count) :
    count ≤ max ((maxBlockSize - (bytes - bytes / length * length)) / max (bytes / length) 1) 1 ↔
      count * (bytes / length) + bytes % length ≤ maxBlockSize := by
  have average : 1 ≤ bytes / length := Nat.div_pos enough nonzero
  have taken : 0 < count * (bytes / length) := Nat.mul_pos (Nat.zero_lt_of_lt several) average
  rw [← Nat.mod_eq_sub_div_mul, max_eq_left average, le_max_iff, Nat.le_div_iff_mul_le average]
  omega

section Sizes

variable {headerSize : ℕ} {size : Transaction → ℕ}

theorem blockSize_take_mono (transactions : List Transaction) :
    Monotone fun count => blockSize headerSize size (transactions.take count) := by
  intro fewer more ordered
  obtain ⟨rest, more⟩ := @List.take_prefix_take_left _ transactions _ _ ordered
  simp only [blockSize, ← more, List.map_append, List.sum_append]
  omega

theorem length_le_blockSize (positive : ∀ tx, 0 < size tx) (transactions : List Transaction) :
    transactions.length ≤ blockSize headerSize size transactions := by
  unfold blockSize
  induction transactions with
  | nil => exact Nat.zero_le _
  | cons tx rest ih =>
    have here := positive tx
    simp only [List.length_cons, List.map_cons, List.sum_cons]
    omega

/-- The answer is exact where the average does not mislead the search. -/
theorem trimBlockTransactions_longestFit_iff (positive : ∀ tx, 0 < size tx)
    (transactions : List Transaction) : LongestFit (some ∘ blockSize headerSize size) transactions
        (trimBlockTransactions (some ∘ blockSize headerSize size) transactions) ↔
      transactions = [] ∨ AverageFits (blockSize headerSize size) transactions := by
  by_cases nothing : transactions = []
  · subst nothing
    refine iff_of_true
      ⟨List.nil_prefix, fun kept => absurd rfl kept, fun longer isPrefix more => ?_⟩ (.inl rfl)
    rw [List.prefix_nil.mp isPrefix] at more
    cases more
  have nonzero : 0 < transactions.length := List.length_pos_iff.mpr nothing
  have enough := @length_le_blockSize headerSize size positive transactions
  have monotone := @blockSize_take_mono headerSize size transactions
  have estimate := fun count => @le_estimatedCount_iff count _ _ nonzero enough
  unfold trimBlockTransactions
  rw [if_neg nothing, or_iff_right nothing]
  dsimp only [Function.comp_apply]
  by_cases small : blockSize headerSize size transactions ≤ maxBlockSize
  · rw [if_pos small]
    have all : blockSize headerSize size (transactions.take transactions.length) ≤
        maxBlockSize := by
      rwa [List.take_length]
    have longest :=
      (longestFit_take_iff nonzero (Nat.le_refl _)).mpr ⟨all, fun more bound _ => bound⟩
    rw [List.take_length] at longest
    refine iff_of_true longest ⟨(monotone nonzero).trans all, fun count _ short _ => ?_⟩
    have average :=
      Nat.mul_le_mul_right (blockSize headerSize size transactions / transactions.length) short
    have whole := Nat.div_add_mod (blockSize headerSize size transactions) transactions.length
    omega
  · rw [if_neg small]
    generalize max _ 1 = guess at estimate ⊢
    have least := le_trimSearch
      (fun count => some (blockSize headerSize size (transactions.take count))) 1
      (min guess transactions.length) 1 Nat.one_pos (Nat.le_refl 1)
    have tried := trimSearch_cases
      (fun count => some (blockSize headerSize size (transactions.take count))) 1
      (min guess transactions.length) 1 Nat.one_pos
    have longest := fun count =>
      @trimSearch_longest count _ monotone 1 (min guess transactions.length) 1
      Nat.one_pos (Nat.le_refl 1)
    generalize trimSearch _ 1 (min guess transactions.length) 1 Nat.one_pos =
      answer at least tried longest ⊢
    have short : answer ≤ transactions.length := by omega
    rw [longestFit_take_iff least short]
    constructor
    · rintro ⟨fits, exact⟩
      refine ⟨(monotone least).trans fits,
        fun count several bound kept => (estimate count several).mp ?_⟩
      have reached := exact count bound kept
      omega
    · rintro ⟨first, average⟩
      constructor
      · rcases tried with one | ⟨-, bytes, bound, same⟩
        · rw [one]
          exact first
        · exact Option.some.inj same ▸ bound
      · intro more bound kept
        by_contra longer
        have several : 1 < more := by omega
        have within := (estimate more several).mpr (average more several bound kept)
        exact longer (longest more several.le (le_min within bound) kept)

end Sizes

/-- A transfer to fill a block with. -/
def filler : Transaction :=
  Transaction.new Crypto.sample Transaction.sampleSender 5 1 21000 0

theorem two_fillers_trimmed : LongestFit (some ∘ blockSize 100 fun _ => 3000000) [filler, filler]
      (trimBlockTransactions (some ∘ blockSize 100 fun _ => 3000000) [filler, filler]) := by
  refine (trimBlockTransactions_longestFit_iff (fun _ => by decide) _).mpr (.inr ⟨by decide, ?_⟩)
  intro count several bound fits
  obtain rfl : count = 2 := Nat.le_antisymm bound several
  exact absurd fits (by decide)

/-- A transaction that is too large for any block stays in it. -/
theorem large_filler_kept : ¬LongestFit (some ∘ blockSize 100 fun _ => 5000000) [filler]
      (trimBlockTransactions (some ∘ blockSize 100 fun _ => 5000000) [filler]) := by
  have kept : trimBlockTransactions (some ∘ blockSize 100 fun _ => 5000000) [filler] = [filler] :=
    trimBlockTransactions_eq_self_iff.mpr (.inl (Nat.le_refl 1))
  rw [kept]
  intro longest
  exact absurd (longest.fits (List.cons_ne_nil _ _)) (by decide)

end IronDag
