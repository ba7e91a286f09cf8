import Mathlib.Data.BitVec

/-!
Fixed-width byte encodings of machine words, and what can be read back from their
concatenation: a list of encodings of one positive width, followed by fields of fixed width.
-/

abbrev Byte := BitVec 8

abbrev Bytes := List Byte

namespace Bytes

open List Nat

/-- The `width` little-endian bytes of `value`; higher bits are dropped. -/
def ofNatLE : Nat → Nat → Bytes
  | 0, _ => []
  | width + 1, value => BitVec.ofNat 8 value :: ofNatLE width (value / 256)

/-- The little-endian bytes of a machine word, as `to_le_bytes` gives them. -/
def le {w : Nat} (word : BitVec w) : Bytes :=
  ofNatLE (w / 8) word.toNat

/-- The big-endian bytes of a machine word. -/
def be {w : Nat} (word : BitVec w) : Bytes :=
  (le word).reverse

/-- The ASCII bytes of a text. -/
def ofText (text : String) : Bytes :=
  text.toList.map fun char => BitVec.ofNat 8 char.toNat

@[simp] theorem length_ofNatLE {value : Nat} : (ofNatLE width value).length = width := by
  induction width generalizing value with
  | zero => rfl
  | succ width ih => simp [ofNatLE, ih]

@[simp] theorem length_le (word : BitVec w) : (le word).length = w / 8 := length_ofNatLE

@[simp] theorem length_be (word : BitVec w) : (be word).length = w / 8 := by
  simp [be]

theorem ofNatLE_mod_eq (same : ofNatLE width left = ofNatLE width right) :
    left % 256 ^ width = right % 256 ^ width := by
  induction width generalizing left right with
  | zero => simp [mod_one]
  | succ width ih =>
    simp only [ofNatLE, cons.injEq] at same
    have low : left % 256 = right % 256 := by
      simpa using congrArg BitVec.toNat same.1
    have high := ih same.2
    rw [pow_succ', mod_mul, mod_mul, low, high]

theorem le_injective (aligned : 8 ∣ w) : Function.Injective (le : BitVec w → Bytes) := by
  intro left right same
  obtain ⟨width, rfl⟩ := aligned
  have capacity : 256 ^ (8 * width / 8) = 2 ^ (8 * width) := by
    rw [Nat.mul_div_cancel_left width (by omega), Nat.pow_mul]
  have congruent := ofNatLE_mod_eq same
  rw [capacity, mod_eq_of_lt left.isLt, mod_eq_of_lt right.isLt] at congruent
  exact BitVec.eq_of_toNat_eq congruent

theorem be_injective (aligned : 8 ∣ w) : Function.Injective (be : BitVec w → Bytes) :=
  reverse_injective.comp (le_injective aligned)

/-- The number whose little-endian bytes these are. -/
def toNatLE : Bytes → Nat
  | [] => 0
  | byte :: rest => byte.toNat + 256 * toNatLE rest

/-- The machine word that `from_le_bytes` reads. -/
def ofLE (w : Nat) (bytes : Bytes) : BitVec w :=
  BitVec.ofNat w (toNatLE bytes)

/-- The machine word with these big-endian bytes. -/
def ofBE (w : Nat) (bytes : Bytes) : BitVec w :=
  ofLE w bytes.reverse

theorem toNatLE_lt (bytes : Bytes) : toNatLE bytes < 256 ^ bytes.length := by
  induction bytes with
  | nil => exact one_pos
  | cons byte rest ih =>
    rw [toNatLE, length_cons]
    omega

theorem ofNatLE_toNatLE (bytes : Bytes) : ofNatLE bytes.length (toNatLE bytes) = bytes := by
  induction bytes with
  | nil => rfl
  | cons byte rest ih =>
    have low : BitVec.ofNat 8 (byte.toNat + 256 * toNatLE rest) = byte := by
      apply BitVec.eq_of_toNat_eq
      rw [BitVec.toNat_ofNat]
      omega
    have high : (byte.toNat + 256 * toNatLE rest) / 256 = toNatLE rest := by omega
    rw [length_cons, toNatLE, ofNatLE, low, high, ih]

theorem le_ofLE (fits : bytes.length = width) : le (ofLE (8 * width) bytes) = bytes := by
  have bounded := toNatLE_lt bytes
  have capacity : 256 ^ width = 2 ^ (8 * width) := by rw [Nat.pow_mul]
  rw [fits, capacity] at bounded
  rw [le, ofLE, BitVec.toNat_ofNat, mod_eq_of_lt bounded,
    Nat.mul_div_cancel_left width (by omega), ← fits]
  exact ofNatLE_toNatLE bytes

theorem be_ofBE (fits : bytes.length = width) : be (ofBE (8 * width) bytes) = bytes := by
  rw [be, ofBE, le_ofLE (by simpa using fits), reverse_reverse]

theorem ofLE_le {word : BitVec (8 * width)} : ofLE (8 * width) (le word) = word :=
  le_injective (dvd_mul_right 8 width) (le_ofLE (by simp))

theorem ofBE_be {width : Nat} (word : BitVec (8 * width)) : ofBE (8 * width) (be word) = word := by
  rw [be, ofBE, reverse_reverse, ofLE_le]

theorem toNatLE_append (low high : Bytes) :
    toNatLE (low ++ high) = toNatLE low + 256 ^ low.length * toNatLE high := by
  induction low with
  | nil => simp [toNatLE]
  | cons byte rest ih =>
    rw [cons_append, toNatLE, ih, toNatLE, length_cons, pow_succ', mul_add, mul_assoc, add_assoc]

/-- The number whose big-endian bytes these are. -/
def toNatBE (bytes : Bytes) : Nat :=
  toNatLE bytes.reverse

theorem toNatBE_cons (byte : Byte) (rest : Bytes) :
    toNatBE (byte :: rest) = 256 ^ rest.length * byte.toNat + toNatBE rest := by
  simp [toNatBE, toNatLE_append, toNatLE, add_comm]

theorem toNatBE_lt (bytes : Bytes) : toNatBE bytes < 256 ^ bytes.length := by
  simpa [toNatBE] using toNatLE_lt bytes.reverse

theorem toNat_ofBE (fits : bytes.length = width) :
    (ofBE (8 * width) bytes).toNat = toNatBE bytes := by
  have bounded := toNatBE_lt bytes
  rw [fits, show (256 : Nat) = 2 ^ 8 from rfl, ← pow_mul] at bounded
  exact mod_eq_of_lt bounded

/-- Concatenated encodings of one positive width determine the list that was encoded. -/
theorem flatMap_injective {α : Type} {encode : α → Bytes} (positive : 0 < width)
    (fixed : ∀ item, (encode item).length = width) (injective : Function.Injective encode) :
    Function.Injective (flatMap encode) := by
  intro left
  induction left with
  | nil =>
    intro right same
    cases right with
    | nil => rfl
    | cons head rest =>
      have lengths := congrArg length same
      simp only [flatMap_nil, flatMap_cons, length_nil, length_append, fixed] at lengths
      omega
  | cons item items ih =>
    intro right same
    cases right with
    | nil =>
      have lengths := congrArg length same
      simp only [flatMap_nil, flatMap_cons, length_nil, length_append, fixed] at lengths
      omega
    | cons head rest =>
      obtain ⟨first, others⟩ := append_inj same (by rw [fixed, fixed])
      rw [injective first, ih others]

section Optional

variable {α : Type} {encode : α → Bytes} {left right : Option α}

/-- Encodings of one width tell two optional fields apart if both are there or both are missing. -/
theorem optional_inj (injective : Function.Injective encode) (present : left.isSome = right.isSome)
    (same : (left.map encode).getD [] = (right.map encode).getD []) : left = right := by
  cases left with
  | none =>
    cases right with
    | none => rfl
    | some value => cases present
  | some value =>
    cases right with
    | none => cases present
    | some other => exact congrArg some (injective same)

theorem length_optional (fixed : ∀ value, (encode value).length = width)
    (present : left.isSome = right.isSome) :
    ((left.map encode).getD []).length = ((right.map encode).getD []).length := by
  cases left with
  | none =>
    cases right with
    | none => rfl
    | some value => cases present
  | some value =>
    cases right with
    | none => cases present
    | some other => exact (fixed value).trans (fixed other).symm

end Optional

end Bytes
