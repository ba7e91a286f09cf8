import IronDag.Account.Sponsor
import IronDag.Lib.SpendWindow

namespace IronDag

namespace SponsorPolicy

/-- The policy covers the fee of a transaction. -/
structure Admits (policy : SponsorPolicy) (sender : Address) (fee : U128) (currentBlock : U64) :
    Prop where
  active : policy.active = true
  unexpired : policy.isExpired currentBlock = false
  sender : policy.allowsSender sender = true
  fee : ∀ ceiling, policy.maxFeePerTx = some ceiling → fee ≤ ceiling

/-- The window of the policy covers the fees paid so far, each with its block number. -/
def Tracks (limit : U128) (policy : SponsorPolicy) (fees : List (ℕ × ℕ)) : Prop :=
  SpendWindow.Windowed blocksPerDay.toNat limit.toNat policy.windowStartBlock.toNat
    policy.spentInWindow.toNat fees

/-- A fee that the window can account for: the limit is below the largest amount, the block is not
before the window, and if the window is over, all earlier fees are a day back. -/
structure KeepsPace (policy : SponsorPolicy) (currentBlock : U64) (fees : List (ℕ × ℕ)) : Prop where
  limit : policy.dailySpendLimit ≠ some (BitVec.allOnes 128)
  ahead : policy.windowStartBlock ≤ currentBlock
  pause : blocksPerDay ≤ Word.saturatingSub currentBlock policy.windowStartBlock →
    ∀ entry ∈ fees, entry.1 + blocksPerDay.toNat ≤ currentBlock.toNat

variable {policy : SponsorPolicy} {limit : U128}

/-- Below the largest amount, a saturating sum within a limit is a sum within the limit. -/
theorem toNat_add_le_of_saturatingAdd {left right : U128} (below : limit ≠ BitVec.allOnes 128)
    (within : Word.saturatingAdd left right ≤ limit) :
    left.toNat + right.toNat ≤ limit.toNat ∧
      (Word.saturatingAdd left right).toNat = left.toNat + right.toNat := by
  have strict : limit.toNat ≠ 2 ^ 128 - 1 :=
    fun full => below (BitVec.eq_of_toNat_eq (full.trans BitVec.toNat_allOnes.symm))
  rw [BitVec.le_def, Word.toNat_saturatingAdd] at within
  rw [Word.toNat_saturatingAdd]
  omega

theorem tracks_recordSpend (tracked : policy.Tracks limit fees)
    (limited : policy.dailySpendLimit = some limit)
    (within : policy.withinDailyLimit fee currentBlock = true)
    (pace : policy.KeepsPace currentBlock fees) :
    (policy.recordSpend fee currentBlock).Tracks limit
      (fees ++ [(currentBlock.toNat, fee.toNat)]) := by
  have below : limit ≠ BitVec.allOnes 128 :=
    fun full => pace.limit (limited.trans (congrArg some full))
  simp only [withinDailyLimit, limited, decide_eq_true_eq] at within
  unfold recordSpend
  by_cases expired : blocksPerDay ≤ Word.saturatingSub currentBlock policy.windowStartBlock
  · rw [if_pos expired]
    rw [if_neg (BitVec.not_lt.mpr expired)] at within
    have fits := (toNat_add_le_of_saturatingAdd below within).1
    refine SpendWindow.Windowed.reopen tracked (pace.pause expired) (by decide) ?_
    simpa using fits
  · rw [if_neg expired]
    rw [if_pos (BitVec.not_le.mp expired)] at within
    obtain ⟨fits, sum⟩ := toNat_add_le_of_saturatingAdd below within
    have added := SpendWindow.Windowed.add tracked pace.ahead fits
    rw [Tracks, sum]
    exact added

@[simp] theorem dailySpendLimit_recordSpend :
    (policy.recordSpend fee currentBlock).dailySpendLimit = policy.dailySpendLimit := by
  unfold recordSpend
  split <;> rfl

end SponsorPolicy

namespace SponsorRegistry

variable {registry : SponsorRegistry}

theorem check_eq_ok : registry.check sponsor sender fee currentBlock = .ok () ↔
    ∃ policy, registry.lookup sponsor = some policy ∧ policy.Admits sender fee currentBlock ∧
      policy.withinDailyLimit fee currentBlock = true := by
  unfold check
  cases found : registry.lookup sponsor with
  | none => simp
  | some policy =>
    have ceiling : (policy.maxFeePerTx.any fun ceiling => decide (ceiling < fee)) = false ↔
        ∀ ceiling, policy.maxFeePerTx = some ceiling → fee ≤ ceiling := by
      cases policy.maxFeePerTx <;> simp
    simp only [Option.some.injEq, exists_eq_left']
    constructor
    · intro passed
      split at passed
      · cases passed
      · next active =>
        split at passed
        · cases passed
        · next unexpired =>
          split at passed
          · cases passed
          · next allowed =>
            split at passed
            · cases passed
            · next below =>
              split at passed
              · cases passed
              · next within =>
                simp only [Bool.not_eq_true,
                  Bool.not_eq_true', Bool.not_eq_false] at active unexpired allowed below within
                exact ⟨⟨active, unexpired, allowed, ceiling.mp below⟩, within⟩
    · rintro ⟨⟨active, unexpired, allowed, below⟩, within⟩
      simp [active, unexpired, allowed, ceiling.mpr below, within]

theorem lookup_recordSpend {registry : SponsorRegistry} {sponsor address : Address} {fee : U128} :
    (registry.recordSpend sponsor fee currentBlock).lookup address =
      if address = sponsor then (registry.lookup address).map fun policy =>
        policy.recordSpend fee currentBlock
      else registry.lookup address := by
  unfold recordSpend
  by_cases own : address = sponsor
  · subst own
    cases found : registry.lookup address with
    | none => simp [found]
    | some policy => simp
  · cases registry.lookup sponsor <;> simp [own]

end SponsorRegistry

end IronDag
