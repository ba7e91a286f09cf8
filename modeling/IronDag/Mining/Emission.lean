import IronDag.Mining.Submission
import Mathlib.Algebra.Order.Ring.GeomSum

namespace IronDag

open Finset

/-- The mining emission of the tokenomics, in base units. -/
def miningEmission : ℕ := 7000000000 * 10 ^ 18

def StreamType.baseReward : StreamType → U128
  | .streamA => streamAReward
  | .streamB => streamBReward
  | .streamC => 0

def halvings (height : U64) : ℕ :=
  height.toNat / halvingInterval.toNat

theorem toNat_getBlockReward (height : U64) (stream : StreamType) :
    (getBlockReward height stream).toNat =
      if halvings height < 64 then stream.baseReward.toNat / 2 ^ halvings height else 0 := by
  have era : (height / halvingInterval).toNat = halvings height := BitVec.toNat_udiv
  have late : (64 : U64) ≤ height / halvingInterval ↔ ¬halvings height < 64 := by
    rw [BitVec.le_def, era, Nat.not_lt]
    rfl
  unfold getBlockReward StreamType.baseReward
  cases stream with
  | streamA | streamB =>
    simp only [late]
    split <;> simp_all [Nat.shiftRight_eq_div_pow]
  | streamC => simp

theorem card_era_le (heights : Finset U64) (era : ℕ) :
    (heights.filter fun height => halvings height = era).card ≤ halvingInterval.toNat := by
  have within : ∀ height ∈ heights.filter fun height => halvings height = era,
      height.toNat ∈ Ico (halvingInterval.toNat * era) (halvingInterval.toNat * (era + 1)) := by
    intro height listed
    obtain rfl := (mem_filter.mp listed).2
    exact mem_Ico.mpr ⟨Nat.mul_div_le _ _, Nat.lt_mul_div_succ _ (by decide)⟩
  have bound := card_le_card_of_injOn BitVec.toNat within fun _ _ _ _ => BitVec.eq_of_toNat_eq
  rwa [Nat.card_Ico, Nat.mul_succ, Nat.add_sub_cancel_left] at bound

/-- The eras of a stream are a geometric sum. -/
theorem sum_getBlockReward_le (heights : Finset U64) (stream : StreamType) :
    ∑ height ∈ heights, (getBlockReward height stream).toNat ≤
      halvingInterval.toNat * (stream.baseReward.toNat * 2) := by
  calc ∑ height ∈ heights, (getBlockReward height stream).toNat
      = ∑ height ∈ heights.filter fun height => halvings height ∈ range 64,
          stream.baseReward.toNat / 2 ^ halvings height := by
        simp only [toNat_getBlockReward, mem_range, sum_filter]
    _ = ∑ era ∈ range 64, ∑ _height ∈ heights.filter fun height => halvings height = era,
          stream.baseReward.toNat / 2 ^ era :=
        (sum_fiberwise_eq_sum_filter' heights _ halvings fun era =>
          stream.baseReward.toNat / 2 ^ era).symm
    _ ≤ ∑ era ∈ range 64, halvingInterval.toNat * (stream.baseReward.toNat / 2 ^ era) := by
        refine sum_le_sum fun era _ => ?_
        rw [sum_const]
        exact Nat.mul_le_mul_right _ (card_era_le heights era)
    _ = halvingInterval.toNat * ∑ era ∈ range 64, stream.baseReward.toNat / 2 ^ era :=
      (mul_sum ..).symm
    _ ≤ halvingInterval.toNat * (stream.baseReward.toNat * 2) := by
        have series := Nat.geom_sum_le (Nat.le_refl 2) stream.baseReward.toNat 64
        rw [Nat.div_one] at series
        exact Nat.mul_le_mul_left _ series

/-- The rewards of blocks with different heights or streams stay within the emission, do not rise
with the height, and are zero after 64 halvings, which end at a height that a block can have. -/
theorem getBlockReward_emission :
    (∀ blocks : Finset (U64 × StreamType),
        ∑ block ∈ blocks, (getBlockReward block.1 block.2).toNat ≤ miningEmission) ∧
      (∀ stream lower higher, lower ≤ higher →
        getBlockReward higher stream ≤ getBlockReward lower stream) ∧
      halvings (64 * halvingInterval) = 64 ∧
      ∀ stream height, 64 ≤ halvings height → getBlockReward height stream = 0 := by
  refine ⟨fun blocks => ?_, fun stream lower higher ordered => ?_,
    by decide, fun stream height late => ?_⟩
  · have listed :
        blocks ⊆ blocks.image Prod.fst ×ˢ [StreamType.streamA, .streamB, .streamC].toFinset := by
      intro block member
      refine mem_product.mpr ⟨mem_image_of_mem _ member, ?_⟩
      cases block.2 <;> simp
    refine (sum_le_sum_of_subset listed).trans ?_
    rw [sum_product_right]
    exact (sum_le_sum fun stream _ => sum_getBlockReward_le _ stream).trans (by decide)
  · rw [BitVec.le_def, toNat_getBlockReward, toNat_getBlockReward]
    have eras : halvings lower ≤ halvings higher := Nat.div_le_div_right (BitVec.le_def.mp ordered)
    split
    · rw [if_pos (by omega)]
      exact Nat.div_le_div_left (Nat.pow_le_pow_right (by decide) eras) (Nat.two_pow_pos _)
    · exact Nat.zero_le _
  · apply BitVec.eq_of_toNat_eq
    rw [toNat_getBlockReward, if_neg (Nat.not_lt.mpr late)]
    rfl

end IronDag
