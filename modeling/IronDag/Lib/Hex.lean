import IronDag.Lib.Bytes
import Mathlib.Data.List.Lex

/-!
Hexadecimal texts as byte strings. Encoding writes lower-case digits, decoding takes digits of
either case.
-/

namespace Hex

open Option

/-- The lower-case digit of a number below sixteen. -/
def digit (number : ℕ) : Byte :=
  if number < 10 then BitVec.ofNat 8 (48 + number) else BitVec.ofNat 8 (87 + number)

/-- The number a digit of either case stands for. -/
def digitValue (char : Byte) : Option ℕ :=
  let code := char.toNat
  if 48 ≤ code ∧ code ≤ 57 then some (code - 48)
  else if 65 ≤ code ∧ code ≤ 70 then some (code - 55)
  else if 97 ≤ code ∧ code ≤ 102 then some (code - 87)
  else none

def encode (bytes : Bytes) : Bytes :=
  bytes.flatMap fun byte => [digit (byte.toNat / 16), digit (byte.toNat % 16)]

/-- Two digits a byte; any other text is refused. -/
def decode : Bytes → Option Bytes
  | [] => some []
  | [_] => none
  | high :: low :: rest => do
      let first ← digitValue high
      let second ← digitValue low
      let bytes ← decode rest
      return BitVec.ofNat 8 (16 * first + second) :: bytes

theorem digitValue_digit (small : number < 16) : digitValue (digit number) = some number := by
  revert number
  decide

theorem digitValue_lt (read : digitValue char = some number) : number < 16 := by
  simp only [digitValue] at read
  split at read
  · cases read; omega
  · split at read
    · cases read; omega
    · split at read
      · cases read; omega
      · cases read

/-- Upper-case digits come before lower-case ones. -/
theorem toNat_le_digit (read : digitValue char = some number) :
    char.toNat ≤ (digit number).toNat := by
  have small := digitValue_lt read
  have code : (digit number).toNat = if number < 10 then 48 + number else 87 + number := by
    rw [digit]
    split <;> rw [BitVec.toNat_ofNat] <;> omega
  rw [code]
  simp only [digitValue] at read
  split at read
  · cases read; split <;> omega
  · split at read
    · cases read; split <;> omega
    · split at read
      · cases read; split <;> omega
      · cases read

theorem decode_encode {bytes : Bytes} : decode (encode bytes) = some bytes := by
  induction bytes with
  | nil => rfl
  | cons byte rest ih =>
    have whole : BitVec.ofNat 8 (16 * (byte.toNat / 16) + byte.toNat % 16) = byte := by
      rw [Nat.div_add_mod, BitVec.ofNat_toNat, BitVec.setWidth_eq]
    have split : encode (byte :: rest) =
        digit (byte.toNat / 16) :: digit (byte.toNat % 16) :: encode rest := rfl
    have high : byte.toNat / 16 < 16 := by omega
    rw [split, decode, digitValue_digit high, digitValue_digit (Nat.mod_lt _ (by omega)), ih]
    simp only [bind_eq_bind, bind_some, whole]
    rfl

theorem length_of_decode (read : decode text = some bytes) : text.length = 2 * bytes.length := by
  induction text using decode.induct generalizing bytes with
  | case1 => cases read; rfl
  | case2 => cases read
  | case3 high low rest ih =>
    simp only [decode, bind_eq_bind, bind_eq_some_iff, pure_def, some.injEq] at read
    obtain ⟨first, _, second, _, others, later, rfl⟩ := read
    simp only [List.length_cons, ih later]
    omega

theorem cons_le_cons {leftRest rightRest : List ℕ} (head : left ≤ right)
    (rest : leftRest ≤ rightRest) : left :: leftRest ≤ right :: rightRest := by
  rcases Nat.lt_or_eq_of_le head with below | same
  · exact le_of_lt (List.Lex.rel below)
  · subst same
    exact List.cons_le_cons left rest

/-- No spelling of the bytes comes after the lower-case one. -/
theorem le_encode_of_decode (read : decode text = some bytes) :
    text.map BitVec.toNat ≤ (encode bytes).map BitVec.toNat := by
  induction text using decode.induct generalizing bytes with
  | case1 => cases read; exact le_refl _
  | case2 => cases read
  | case3 high low rest ih =>
    simp only [decode, bind_eq_bind, bind_eq_some_iff, pure_def, some.injEq] at read
    obtain ⟨first, highRead, second, lowRead, others, later, rfl⟩ := read
    have highSmall := digitValue_lt highRead
    have lowSmall := digitValue_lt lowRead
    have code : (BitVec.ofNat 8 (16 * first + second)).toNat = 16 * first + second := by
      rw [BitVec.toNat_ofNat]
      omega
    have spelled : encode (BitVec.ofNat 8 (16 * first + second) :: others) =
        digit first :: digit second :: encode others := by
      rw [encode, List.flatMap_cons, code, show (16 * first + second) / 16 = first by omega,
        show (16 * first + second) % 16 = second by omega]
      rfl
    rw [spelled]
    exact cons_le_cons (toNat_le_digit highRead) (cons_le_cons (toNat_le_digit lowRead) (ih later))

end Hex
