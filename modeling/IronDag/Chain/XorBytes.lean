import IronDag.Chain.Block

/-! The exclusive or of the memory mixing: a word at a time, and the tail byte by byte. -/

namespace IronDag

open Bytes List

/-- A destination, and the indices in the order they were written. -/
structure Destination where
  bytes : Bytes
  touched : List ℕ
  deriving DecidableEq

namespace Destination

def store (dst : Destination) (offset : ℕ) (values : Bytes) : Destination where
  bytes := dst.bytes.take offset ++ values ++ dst.bytes.drop (offset + values.length)
  touched := dst.touched ++ range' offset values.length

/-- `dst[i] ^= src[i]`, for an index that both have. -/
def xorByte (src : Bytes) (dst : Destination) (index : ℕ) : Destination :=
  dst.store index [dst.bytes.getD index 0 ^^^ src.getD index 0]

/-- A register is loaded from each side and stored. -/
def xorRegister (width : ℕ) (src : Bytes) (dst : Destination) (chunk : ℕ) : Destination :=
  let offset := chunk * width
  let load (bytes : Bytes) := ofLE (8 * width) ((bytes.drop offset).take width)
  dst.store offset (le (load dst.bytes ^^^ load src))

/-- Whole registers, and then the bytes that are left. -/
def xorRegisters (width : ℕ) (dst : Destination) (src : Bytes) (len : ℕ) : Destination :=
  let chunks := len / width
  (range' (chunks * width) (len - chunks * width)).foldl (xorByte src)
    ((range chunks).foldl (xorRegister width src) dst)

def xorBytesAvx2 : Destination → Bytes → ℕ → Destination := xorRegisters 32

def xorBytesSse2 : Destination → Bytes → ℕ → Destination := xorRegisters 16

/-- `bytes.get(offset..offset + 8)` -/
def getWord (bytes : Bytes) (offset : ℕ) : Option Bytes :=
  if offset + 8 ≤ bytes.length then some ((bytes.drop offset).take 8) else none

/-- A word that is not there is read as zero, and not written. -/
def xorWord (src : Bytes) (dst : Destination) (chunk : ℕ) : Destination :=
  let offset := chunk * 8
  let load (bytes : Bytes) : U64 := ofLE 64 ((getWord bytes offset).getD (replicate 8 0))
  if (getWord dst.bytes offset).isSome then dst.store offset (le (load dst.bytes ^^^ load src))
  else dst

def xorBytesScalar (dst : Destination) (src : Bytes) (len : ℕ) : Destination :=
  let chunks := len / 8
  (range' (chunks * 8) (len - chunks * 8)).foldl
    (fun dst index =>
      if index < dst.bytes.length ∧ index < src.length then dst.xorByte src index else dst)
    ((range chunks).foldl (xorWord src) dst)

end Destination

/-- What `is_x86_feature_detected` finds. -/
structure CpuFeatures where
  avx2 : Bool
  sse2 : Bool

open Destination in
def xorBytes (cpu : CpuFeatures) (dst src : Bytes) : Destination :=
  let len := min dst.length src.length
  if cpu.avx2 then xorBytesAvx2 ⟨dst, []⟩ src len
  else if cpu.sse2 then xorBytesSse2 ⟨dst, []⟩ src len
  else xorBytesScalar ⟨dst, []⟩ src len

theorem ofNatLE_xor (left right : ℕ) :
    ofNatLE width (left ^^^ right) =
      zipWith (· ^^^ ·) (ofNatLE width left) (ofNatLE width right) := by
  induction width generalizing left right with
  | zero => rfl
  | succ width ih =>
    have high : (left ^^^ right) / 256 = left / 256 ^^^ right / 256 := Nat.xor_div_two_pow (n := 8)
    rw [ofNatLE, high, ih, BitVec.ofNat_xor]
    rfl

theorem le_xor (left right : BitVec w) :
    le (left ^^^ right) = zipWith (· ^^^ ·) (le left) (le right) := by
  rw [le, BitVec.toNat_xor, ofNatLE_xor]
  rfl

namespace Destination

variable {dst src : Bytes}

/-- The destination when everything before `position` is done. -/
def upTo (dst src : Bytes) (position : ℕ) : Destination where
  bytes := zipWith (· ^^^ ·) (dst.take position) (src.take position) ++ dst.drop position
  touched := range position

section Steps

variable (same : dst.length = src.length)
include same

theorem length_upTo : (upTo dst src position).bytes.length = dst.length := by
  simp only [upTo, length_append, length_zipWith, length_take, length_drop]
  omega

theorem length_front (bound : position ≤ dst.length) :
    (zipWith (· ^^^ ·) (dst.take position) (src.take position)).length = position := by
  simp only [length_zipWith, length_take]
  omega

theorem drop_upTo (bound : position ≤ dst.length) :
    (upTo dst src position).bytes.drop position = dst.drop position :=
  drop_left' (length_front same bound)

/-- The next bytes are stored. -/
theorem store_upTo (bound : position + width ≤ dst.length) :
    (upTo dst src position).store position
        (zipWith (· ^^^ ·) ((dst.drop position).take width) ((src.drop position).take width)) =
      upTo dst src (position + width) := by
  have front := length_front same (Nat.le_of_add_right_le bound)
  have count :
      (zipWith (· ^^^ ·) ((dst.drop position).take width) ((src.drop position).take width)).length =
      width := by
    simp only [length_zipWith, length_take, length_drop]
    omega
  unfold store upTo
  rw [count, take_left' front, ← drop_drop, drop_left' front, take_add, take_add,
    zipWith_append (by simp only [length_take]; omega)]
  simp [range_eq_range', ← range'_append_1]

theorem xorByte_upTo (bound : index < dst.length) :
    (upTo dst src index).xorByte src index = upTo dst src (index + 1) := by
  have read {bytes : Bytes} (inside : index < bytes.length) :
      (bytes.drop index).take 1 = [bytes.getD index 0] := by
    rw [drop_eq_getElem_cons, getD_eq_getElem?_getD, getElem?_eq_getElem inside]
    rfl
  have current := read ((length_upTo same).symm ▸ bound : index < (upTo dst src index).bytes.length)
  rw [drop_upTo same bound.le] at current
  have stored := @store_upTo dst src same _ 1 bound
  rwa [current, read (same ▸ bound)] at stored

theorem xorRegister_upTo (bound : (chunk + 1) * width ≤ dst.length) :
    (upTo dst src (chunk * width)).xorRegister width src chunk =
      upTo dst src ((chunk + 1) * width) := by
  have next : (chunk + 1) * width = chunk * width + width := Nat.succ_mul _ _
  rw [next] at bound ⊢
  have loaded {bytes : Bytes} (long : chunk * width + width ≤ bytes.length) :
      le (ofLE (8 * width) _) = (bytes.drop (chunk * width)).take width :=
    le_ofLE (by simp only [length_take, length_drop]; omega)
  unfold xorRegister
  dsimp only
  rw [le_xor, drop_upTo same (Nat.le_of_add_right_le bound), loaded bound, loaded (same ▸ bound),
    store_upTo same bound]

theorem xorWord_upTo (bound : (chunk + 1) * 8 ≤ dst.length) :
    (upTo dst src (chunk * 8)).xorWord src chunk = upTo dst src ((chunk + 1) * 8) := by
  have found {bytes : Bytes} (long : dst.length = bytes.length) :
      getWord bytes _ = some ((bytes.drop (chunk * 8)).take 8) :=
    if_pos (by omega)
  unfold xorWord
  dsimp only
  rw [found (length_upTo same).symm, found same]
  exact xorRegister_upTo same bound

/-- Whole chunks and then single bytes reach every index in order. -/
theorem foldl_upTo {chunkStep byteStep : Destination → ℕ → Destination}
    (chunked : ∀ chunk, (chunk + 1) * width ≤ dst.length →
      chunkStep (upTo dst src (chunk * width)) chunk = upTo dst src ((chunk + 1) * width))
    (single : ∀ index < dst.length, byteStep (upTo dst src index) index =
      upTo dst src (index + 1)) :
    (range' (dst.length / width * width) (dst.length - dst.length / width * width)).foldl byteStep
        ((range (dst.length / width)).foldl chunkStep ⟨dst, []⟩) =
      ⟨zipWith (· ^^^ ·) dst src, range dst.length⟩ := by
  have chunks : ∀ count, count * width ≤ dst.length →
      (range count).foldl chunkStep ⟨dst, []⟩ = upTo dst src (count * width) := by
    intro count bound
    induction count with
    | zero => simp [upTo]
    | succ count ih =>
      rw [range_succ, foldl_append, ih (by rw [Nat.succ_mul] at bound; omega)]
      exact chunked _ bound
  have bytes : ∀ count start, start + count ≤ dst.length →
      (range' start count).foldl byteStep (upTo dst src start) = upTo dst src (start + count) := by
    intro count
    induction count with
    | zero => intros; rfl
    | succ count ih =>
      intro start bound
      rw [range'_succ, foldl_cons, single _ (by omega), ih _ (by omega), add_right_comm, add_assoc]
  have covered := Nat.div_mul_le_self dst.length width
  rw [chunks _ covered, bytes _ _ (by omega), Nat.add_sub_cancel' covered, upTo, take_length,
    drop_length, same, take_length, append_nil]

end Steps

end Destination

open Destination

/-- On every machine the destination holds the exclusive or, with each index written once and in
order. For the chunks of the memory this is how `B3MemHash.mix` combines them with the hashes. -/
theorem xorBytes_exact (cpu : CpuFeatures) :
    (∀ dst src : Bytes, dst.length = src.length →
      xorBytes cpu dst src = ⟨zipWith (· ^^^ ·) dst src, range dst.length⟩) ∧
    ∀ chunk mixed : Hash, (xorBytes cpu (be chunk) (be mixed)).bytes = be (chunk ^^^ mixed) := by
  have exact : ∀ dst src : Bytes, dst.length = src.length →
      xorBytes cpu dst src = ⟨zipWith (· ^^^ ·) dst src, range dst.length⟩ := by
    intro dst src same
    unfold xorBytes
    rw [← same, min_self]
    split_ifs
    · exact foldl_upTo same (fun _ => xorRegister_upTo same) (fun _ => xorByte_upTo same)
    · exact foldl_upTo same (fun _ => xorRegister_upTo same) (fun _ => xorByte_upTo same)
    · apply foldl_upTo same (fun _ => xorWord_upTo same)
      intro index bound
      rw [if_pos ⟨(length_upTo same).symm ▸ bound, same ▸ bound⟩, xorByte_upTo same bound]
  refine ⟨exact, fun chunk mixed => ?_⟩
  rw [exact _ _ (by simp), be, be, be, le_xor, reverse_zipWith (by simp)]

theorem xorBytes_exact_nine :
    xorBytes ⟨false, true⟩ (replicate 9 5) (replicate 9 3) = ⟨replicate 9 6, range 9⟩ :=
  (xorBytes_exact _).1 _ _ rfl

end IronDag
