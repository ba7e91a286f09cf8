import IronDag.Lib.Bytes
import Mathlib.Data.Nat.Digits.Lemmas

/-!
Recursive Length Prefix encodings: integers without leading zeros, byte strings and lists, each
behind a header that gives the length of what follows.
-/

namespace Bytes

/-- What is encoded, and what stands behind it, can be read back. -/
def SplitsOff {α : Type} (admissible : α → Prop) (encode : α → Bytes) : Prop :=
  ∀ ⦃left right : α⦄, admissible left → admissible right → ∀ ⦃behindLeft behindRight : Bytes⦄,
    encode left ++ behindLeft = encode right ++ behindRight → left = right ∧
      behindLeft = behindRight

/-- Concatenated encodings that can be split off and are not empty determine the list. -/
theorem SplitsOff.flatMap_injective {encode : α → Bytes} (splits : SplitsOff (fun _ => True) encode)
    (nonempty : ∀ item, encode item ≠ []) : Function.Injective (List.flatMap encode) := by
  intro left
  induction left with
  | nil =>
    intro right same
    cases right with
    | nil => rfl
    | cons head rest => simp [nonempty] at same
  | cons item items ih =>
    intro right same
    cases right with
    | nil => simp [nonempty] at same
    | cons head rest =>
      obtain ⟨first, others⟩ := splits trivial trivial same
      rw [first, ih others]

end Bytes

namespace LengthPrefix

open Bytes (SplitsOff)

/-- The big-endian bytes of a number without leading zeros. -/
def trimmed (number : Nat) : Bytes :=
  ((Nat.digits 256 number).map (BitVec.ofNat 8)).reverse

/-- Short lengths go into the first byte, longer ones follow it. -/
def header (base length : Nat) : Bytes :=
  if length < 56 then [BitVec.ofNat 8 (base + length)]
  else BitVec.ofNat 8 (base + 55 + (trimmed length).length) :: trimmed length

/-- A byte below 128 stands for itself. -/
def encodeString (bytes : Bytes) : Bytes :=
  match bytes with
  | [byte] => if byte < 128 then [byte] else header 128 1 ++ [byte]
  | _ => header 128 bytes.length ++ bytes

def encodeNat (number : Nat) : Bytes :=
  encodeString (trimmed number)

/-- A list, from the encodings of its items. -/
def encodeList (payload : Bytes) : Bytes :=
  header 192 payload.length ++ payload

theorem trimmed_injective : Function.Injective trimmed := by
  have readBack : ∀ number, Nat.ofDigits 256 ((trimmed number).reverse.map BitVec.toNat) =
      number := by
    intro number
    have digits : (trimmed number).reverse.map BitVec.toNat = Nat.digits 256 number := by
      rw [trimmed, List.reverse_reverse, List.map_map]
      refine (List.map_congr_left ?_).trans (List.map_id _)
      intro digit member
      have bound : digit < 256 := Nat.digits_lt_base (by decide) member
      simpa using bound
    rw [digits, Nat.ofDigits_digits]
  intro left right same
  rw [← readBack left, same, readBack right]

theorem length_trimmed_pos (positive : 0 < number) : 0 < (trimmed number).length := by
  rw [trimmed, List.length_reverse, List.length_map, List.length_pos_iff]
  exact Nat.digits_ne_nil_iff_ne_zero.mpr positive.ne'

theorem length_trimmed_le (bound : number < 256 ^ width) : (trimmed number).length ≤ width := by
  rw [trimmed, List.length_reverse, List.length_map]
  exact (Nat.digits_length_le_iff (by decide) number).mpr bound

theorem header_eq_cons {base length : Nat} (room : base + 63 < 256) (bound : length < 256 ^ 8) :
    ∃ first rest, header base length = first :: rest ∧ base ≤ first.toNat := by
  have digits := length_trimmed_le bound
  unfold header
  split
  · refine ⟨_, _, rfl, ?_⟩
    rw [BitVec.toNat_ofNat]
    omega
  · refine ⟨_, _, rfl, ?_⟩
    rw [BitVec.toNat_ofNat]
    omega

theorem splitsOff_header (room : base + 63 < 256) : SplitsOff (· < 256 ^ 8) (header base) := by
  intro left right leftBound rightBound behindLeft behindRight same
  have leftDigits := length_trimmed_le leftBound
  have rightDigits := length_trimmed_le rightBound
  -- the first byte tells a short length from a long one and gives the number of bytes of a long one
  have byte : ∀ {one other : Nat}, one < 256 → other < 256 →
      BitVec.ofNat 8 one = BitVec.ofNat 8 other → one = other := by
    intro one other oneBound otherBound equal
    simpa [Nat.mod_eq_of_lt oneBound, Nat.mod_eq_of_lt otherBound] using congrArg BitVec.toNat equal
  unfold header at same
  split at same
  · split at same
    · obtain ⟨first, behind⟩ := List.cons.inj same
      have lengths := byte (by omega) (by omega) first
      exact ⟨by omega, behind⟩
    · have positive := length_trimmed_pos (show 0 < right by omega)
      have first := byte (by omega) (by omega) (List.cons.inj same).1
      omega
  · split at same
    · have positive := length_trimmed_pos (show 0 < left by omega)
      have first := byte (by omega) (by omega) (List.cons.inj same).1
      omega
    · obtain ⟨first, rest⟩ := List.cons.inj same
      have widths := byte (by omega) (by omega) first
      obtain ⟨lengths, behind⟩ := List.append_inj rest (by omega)
      exact ⟨trimmed_injective lengths, behind⟩

/-- A string of another form than a small byte is its header and its bytes. -/
theorem encodeString_cases (bytes : Bytes) :
    (∃ byte : Byte, bytes = [byte] ∧ byte.toNat < 128 ∧ encodeString bytes = [byte]) ∨
      encodeString bytes = header 128 bytes.length ++ bytes := by
  unfold encodeString
  split
  · next byte =>
    split
    · next small => exact .inl ⟨byte, rfl, small, rfl⟩
    · exact .inr rfl
  · exact .inr rfl

theorem splitsOff_encodeString : SplitsOff (fun bytes => bytes.length < 256 ^ 8) encodeString := by
  intro left right leftBound rightBound behindLeft behindRight same
  obtain ⟨leftFirst, leftRest, leftHeader, leftBase⟩ :=
    @header_eq_cons 128 left.length (by decide) leftBound
  obtain ⟨rightFirst, rightRest, rightHeader, rightBase⟩ :=
    @header_eq_cons 128 right.length (by decide) rightBound
  rcases encodeString_cases left with ⟨byte, rfl, small, leftCode⟩ | leftCode <;>
    rcases encodeString_cases right with ⟨other, rfl, otherSmall, rightCode⟩ | rightCode <;>
    rw [leftCode, rightCode] at same
  · obtain ⟨rfl, behind⟩ := List.cons.inj same
    exact ⟨rfl, behind⟩
  · rw [rightHeader] at same
    obtain ⟨rfl, -⟩ := List.cons.inj same
    omega
  · rw [leftHeader] at same
    obtain ⟨rfl, -⟩ := List.cons.inj same
    omega
  · rw [List.append_assoc, List.append_assoc] at same
    obtain ⟨lengths, rest⟩ := splitsOff_header (by decide) leftBound rightBound same
    exact List.append_inj rest lengths

theorem encodeString_ne_nil (bytes : Bytes) : encodeString bytes ≠ [] := by
  rcases encodeString_cases bytes with ⟨byte, -, -, code⟩ | code
  · simp [code]
  · rw [code, header]
    split <;> simp

theorem splitsOff_encodeNat : SplitsOff (· < 256 ^ 32) encodeNat := by
  intro left right leftBound rightBound behindLeft behindRight same
  have fits : ∀ {number}, number < 256 ^ 32 → (trimmed number).length < 256 ^ 8 := fun bound =>
    (length_trimmed_le bound).trans_lt (by decide)
  obtain ⟨digits, behind⟩ := splitsOff_encodeString (fits leftBound) (fits rightBound) same
  exact ⟨trimmed_injective digits, behind⟩

/-- The encoding of a byte is at most two bytes long. -/
theorem length_encodeNat_le (bound : number < 256) : (encodeNat number).length ≤ 2 := by
  have digits : (trimmed number).length ≤ 1 := length_trimmed_le (by simpa using bound)
  rw [encodeNat]
  rcases encodeString_cases (trimmed number) with ⟨byte, -, -, code⟩ | code
  · simp [code]
  · rw [code, header, if_pos (by omega), List.length_append, List.length_singleton]
    omega

theorem splitsOff_encodeList : SplitsOff (fun payload => payload.length < 256 ^ 8) encodeList := by
  intro left right leftBound rightBound behindLeft behindRight same
  unfold encodeList at same
  rw [List.append_assoc, List.append_assoc] at same
  obtain ⟨lengths, rest⟩ := splitsOff_header (by decide) leftBound rightBound same
  exact List.append_inj rest lengths

end LengthPrefix
