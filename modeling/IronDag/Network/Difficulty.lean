import IronDag.Network.SyncBatch

namespace IronDag

open Nat hiding bits
open Bytes List

/-- The largest hash that meets a difficulty: bytes of zero, one with zero bits in front, and full
ones. -/
def difficultyToTarget (difficulty : U64) : Bytes :=
  let zeroBytes := (difficulty / 8).toNat
  let zeroBits := (difficulty % 8).toNat
  let full : Byte := 0xFF
  replicate (min zeroBytes 32) 0 ++
    if zeroBytes < 32 then (if 0 < zeroBits then full >>> zeroBits else full) :: replicate
      (31 - zeroBytes) full
    else []

section Bits

variable {byte : Byte} {rest : Bytes}

theorem toNatBE_cons_lt_of_le (few : bits ≤ 8) :
    toNatBE (byte :: rest) < 2 ^ (8 * (rest.length + 1) - bits) ↔ byte.toNat < 2 ^ (8 - bits) := by
  have low := toNatBE_lt rest
  have width : 2 ^ (8 * (rest.length + 1) - bits) = 256 ^ rest.length * 2 ^ (8 - bits) := by
    rw [show (256 : ℕ) = 2 ^ 8 from rfl, ← pow_mul, ← pow_add]
    congr 1
    omega
  rw [toNatBE_cons, width]
  constructor
  · intro less
    exact Nat.lt_of_mul_lt_mul_left (lt_of_le_of_lt (le_add_right _ _) less)
  · intro less
    have room := mul_le_mul_left (256 ^ rest.length) less
    rw [mul_succ] at room
    omega

theorem toNatBE_cons_lt_of_ge (many : 8 ≤ bits) : toNatBE (byte :: rest) <
    2 ^ (8 * (rest.length + 1) - bits) ↔
      byte = 0 ∧ toNatBE rest < 2 ^ (8 * rest.length - (bits - 8)) := by
  rw [toNatBE_cons, show 8 * (rest.length + 1) - bits = 8 * rest.length - (bits - 8) by omega]
  constructor
  · intro less
    have narrow : 2 ^ (8 * rest.length - (bits - 8)) ≤ 256 ^ rest.length := by
      rw [show (256 : ℕ) = 2 ^ 8 from rfl, ← pow_mul]
      exact Nat.pow_le_pow_right (by decide) (sub_le _ _)
    rcases Nat.eq_zero_or_pos byte.toNat with zero | positive
    · exact ⟨BitVec.eq_of_toNat_eq zero, by rwa [zero, mul_zero, zero_add] at less⟩
    · have large := Nat.le_mul_of_pos_right (256 ^ rest.length) positive
      omega
  · rintro ⟨rfl, less⟩
    simpa using less

/-- The zero bits in front, and the number, bound each other. -/
theorem le_leadingZeroBits_iff {bytes : Bytes} (bound : bits ≤ 8 * bytes.length) :
    bits ≤ leadingZeroBits bytes ↔ toNatBE bytes < 2 ^ (8 * bytes.length - bits) := by
  induction bytes generalizing bits with
  | nil => simp_all [leadingZeroBits, toNatBE, toNatLE]
  | cons byte rest ih =>
    rw [length_cons] at bound ⊢
    unfold leadingZeroBits
    rcases le_total bits 8 with few | many
    · rw [toNatBE_cons_lt_of_le few]
      split
      · next zero => exact iff_of_true (by omega) (zero ▸ Nat.two_pow_pos _)
      · next nonzero =>
        have nonzero : byte.toNat ≠ 0 := fun none => nonzero (BitVec.eq_of_toNat_eq none)
        have top := (log2_lt nonzero).mpr byte.isLt
        rw [← log2_lt nonzero]
        omega
    · rw [toNatBE_cons_lt_of_ge many, ← ih (by omega)]
      split
      · next zero => simp only [zero, true_and]; omega
      · next nonzero => exact iff_of_false (by omega) fun both => nonzero both.1

theorem leadingZeroBits_le (bytes : Bytes) : leadingZeroBits bytes ≤ 8 * bytes.length := by
  induction bytes with
  | nil => exact Nat.le_refl 0
  | cons byte rest ih =>
    rw [leadingZeroBits, length_cons]
    split <;> omega

/-- The loop of `meets_difficulty` over bytes. -/
theorem zeros_iff {bytes : Bytes} (partly : zeroBits < 8) :
    ((bytes.take (min zeroBytes bytes.length)).all (fun byte => decide (byte = 0)) &&
        (decide (bytes.length ≤ zeroBytes) || decide (zeroBits = 0) ||
          decide ((bytes.getD zeroBytes 0).toNat ≤ 0xFF >>> zeroBits))) = true ↔
      toNatBE bytes < 2 ^ (8 * bytes.length - (8 * zeroBytes + zeroBits)) := by
  induction bytes generalizing zeroBytes with
  | nil => simp [toNatBE, toNatLE]
  | cons byte rest ih =>
    rw [length_cons]
    cases zeroBytes with
    | zero =>
      rw [mul_zero, zero_add, toNatBE_cons_lt_of_le partly.le]
      have mask : 0xFF >>> zeroBits = 2 ^ (8 - zeroBits) - 1 :=
        (by decide : ∀ bits < 8, 0xFF >>> bits = 2 ^ (8 - bits) - 1) zeroBits partly
      have positive := Nat.two_pow_pos (8 - zeroBits)
      by_cases none : zeroBits = 0
      · simp [none, byte.isLt]
      · simp [none, mask]
        omega
    | succ zeroBytes =>
      rw [toNatBE_cons_lt_of_ge (by omega), show 8 * (zeroBytes + 1) + zeroBits - 8 =
        8 * zeroBytes + zeroBits by omega, ← ih]
      simp [Nat.add_min_add_right, and_assoc]

end Bits

section Hashes

variable (hash : Hash) (difficulty : U64)

theorem toNatBE_be_hash : toNatBE (be hash) = hash.toNat := by
  rw [← @toNat_ofBE 32 (be hash) (length_be hash)]
  exact congrArg BitVec.toNat (@ofBE_be 32 hash)

/-- What the check means: a bound on the hash as a number. -/
theorem meetsDifficulty_iff_lt :
    meetsDifficulty hash difficulty = true ↔ hash.toNat < 2 ^ (256 - difficulty.toNat) := by
  have parts : 8 * (difficulty / 8).toNat + (difficulty % 8).toNat = difficulty.toNat :=
    div_add_mod _ _
  have loop :=
    @zeros_iff (difficulty % 8).toNat (difficulty / 8).toNat (be hash) (mod_lt _ (by decide))
  rw [parts, length_be, toNatBE_be_hash] at loop
  exact loop

omit hash in
/-- Bytes of zero add nothing, and full ones behind a byte leave no room below the next. -/
theorem toNatBE_target (byte : Byte) (zeros full : ℕ) :
    toNatBE (replicate zeros 0 ++ byte :: replicate full 0xFF) + 1 =
      256 ^ full * (byte.toNat + 1) := by
  induction zeros with
  | zero =>
    rw [replicate_zero, nil_append, toNatBE_cons, length_replicate, mul_succ, add_assoc]
    congr 1
    induction full with
    | zero => rfl
    | succ full ih =>
      rw [replicate_succ, toNatBE_cons, length_replicate, add_assoc, ih, pow_succ]
      exact (mul_succ (256 ^ full) 255).symm
  | succ zeros ih => simpa [replicate_succ, toNatBE_cons] using ih

theorem toNat_target :
    (ofBE 256 (difficultyToTarget difficulty)).toNat + 1 = 2 ^ (256 - difficulty.toNat) := by
  have parts : 8 * (difficulty / 8).toNat + (difficulty % 8).toNat = difficulty.toNat :=
    div_add_mod _ _
  have partly : (difficulty % 8).toNat < 8 := mod_lt _ (by decide)
  rw [← parts]
  unfold difficultyToTarget
  generalize (difficulty / 8).toNat = zeroBytes
  generalize (difficulty % 8).toNat = zeroBits at partly
  dsimp only
  split
  · next few =>
    have mask : (if 0 < zeroBits then (0xFF : Byte) >>> zeroBits else 0xFF).toNat + 1 =
        2 ^ (8 - zeroBits) :=
      (by decide : ∀ bits < 8, (if 0 < bits then (0xFF : Byte) >>> bits else 0xFF).toNat + 1 =
        2 ^ (8 - bits)) _ partly
    rw [@toNat_ofBE 32 _ (by simp; omega), toNatBE_target, mask, show (256 : ℕ) =
      2 ^ 8 from rfl, ← pow_mul, ← pow_add]
    congr 1
    omega
  · next all =>
    rw [min_eq_right (by omega), Nat.sub_eq_zero_of_le (by omega)]
    rfl

theorem le_clz_iff (bound : bits ≤ 256) : bits ≤ hash.clz.toNat ↔
    hash.toNat < 2 ^ (256 - bits) := by
  constructor
  · intro enough
    exact lt_of_lt_of_le BitVec.toNat_lt_two_pow_sub_clz
      (Nat.pow_le_pow_right (by decide) (by omega))
  · intro less
    by_contra fewer
    have nonzero : hash ≠ 0 := by
      intro zero
      rw [BitVec.clz_eq_iff_eq_zero.mpr zero] at fewer
      exact fewer bound
    have large := BitVec.two_pow_sub_clz_le_toNat_of_ne_zero (by decide) nonzero
    exact absurd less (not_lt.mpr ((Nat.pow_le_pow_right (by decide) (by omega)).trans large))

end Hashes

/-- The check is a comparison with the target and a count of zero bits, and it gets harder with the
difficulty. The check of the synchronisation agrees with it unless all bits are zero and more are
asked for. -/
theorem meetsDifficulty_spec (hash : Hash) (difficulty : U64) :
    (meetsDifficulty hash difficulty = true ↔ hash ≤ ofBE 256 (difficultyToTarget difficulty)) ∧
      (meetsDifficulty hash difficulty = true ↔ min difficulty.toNat 256 ≤ hash.clz.toNat) ∧
      (∀ easier ≤ difficulty, meetsDifficulty hash difficulty = true →
        meetsDifficulty hash easier = true) ∧
      ∀ block : Block, block.hash = hash → block.header.difficulty = difficulty →
        block.header.blockNumber ≠ 0 → block.header.streamType ≠ .streamC → difficulty ≠ 0 →
          (verifyBlockPow block = meetsDifficulty hash difficulty ↔
            difficulty.toNat ≤ 256 ∨ hash ≠ 0) := by
  refine ⟨?_, ?_, fun easier below => ?_, ?_⟩
  · rw [meetsDifficulty_iff_lt, BitVec.le_def, ← toNat_target, Nat.lt_succ_iff]
  · rw [meetsDifficulty_iff_lt, le_clz_iff hash (min_le_right _ _),
      show 256 - min difficulty.toNat 256 = 256 - difficulty.toNat by omega]
  · rw [meetsDifficulty_iff_lt, meetsDifficulty_iff_lt]
    exact fun meets => meets.trans_le
      (Nat.pow_le_pow_right (by decide) (Nat.sub_le_sub_left (BitVec.le_def.mp below) _))
  · rintro block rfl rfl later work positive
    unfold verifyBlockPow
    rw [if_neg later, if_neg work, if_neg positive, Bool.eq_iff_iff,
      decide_eq_true_iff, meetsDifficulty_iff_lt]
    have zeros := @le_leadingZeroBits_iff block.header.difficulty.toNat (be block.hash)
    have most := leadingZeroBits_le (be block.hash)
    rw [length_be, toNatBE_be_hash] at zeros
    rw [length_be] at most
    rcases lt_or_ge 256 block.header.difficulty.toNat with more | fits
    · have few : ¬block.header.difficulty.toNat ≤ leadingZeroBits (be block.hash) := by omega
      have zero : block.hash.toNat = 0 ↔ block.hash = 0 := @BitVec.toNat_inj 256 block.hash 0
      rw [Nat.sub_eq_zero_of_le more.le, pow_zero, lt_one_iff, zero, iff_false_left few,
        or_iff_right (not_le.mpr more)]
    · exact iff_of_true (zeros fits) (.inl fits)

/-- A hash of zeros does not have the work of a difficulty above its width for the
synchronisation. -/
theorem zeros_verdicts_differ :
    let block : Block := ⟨⟨[], 1, .streamA, 257, 0, 0, 0, 1⟩, [], 0, none⟩
    verifyBlockPow block ≠ meetsDifficulty block.hash block.header.difficulty := by
  decide

end IronDag
