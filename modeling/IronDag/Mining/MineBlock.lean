import IronDag.Chain.BlockChecks

namespace IronDag

open Bytes Crypto

def maxNonce : U64 := BitVec.allOnes 64

namespace BlockHeader

variable (crypto : Crypto) (header : BlockHeader) (transactionsRoot : Hash)

/-- The bytes in front of the nonce. -/
def staticBytes : Bytes :=
  header.parentHashes.flatMap be ++
    (le header.blockNumber ++ le header.difficulty ++ le header.timestamp)

/-- The buffer of the miner, with a placeholder for the nonce. -/
def headerBytes : Bytes :=
  header.staticBytes ++ le (0 : U64) ++ [header.streamType.toByte] ++ be transactionsRoot ++
    [header.hashVersion]

/-- The nonce is written into the buffer. -/
def patchNonce (buffer : Bytes) (nonceOffset : ℕ) (nonce : U64) : Bytes :=
  buffer.take nonceOffset ++ le nonce ++ buffer.drop (nonceOffset + 8)

/-- What the miner hashes for a nonce. Stream C is hashed as stream A. -/
def minerHash (streamType : StreamType) (nonce : U64) : Hash :=
  match streamType with
  | .streamB => { header with nonce := nonce }.hashB3memhash crypto transactionsRoot
  | .streamA | .streamC =>
    crypto.blake3 (patchNonce (header.headerBytes transactionsRoot) header.staticBytes.length nonce)

theorem patchNonce_headerBytes (nonce : U64) :
    patchNonce (header.headerBytes transactionsRoot) header.staticBytes.length nonce =
      { header with nonce := nonce }.powInput transactionsRoot := by
  have shape : header.headerBytes transactionsRoot = header.staticBytes ++
      (le (0 : U64) ++
        ([header.streamType.toByte] ++ be transactionsRoot ++ [header.hashVersion])) := by
    simp only [headerBytes, List.append_assoc]
  rw [patchNonce, shape, List.take_left, ← List.drop_drop, List.drop_left,
    List.drop_left' (show (le (0 : U64)).length = 8 from length_le _)]
  simp only [powInput, staticBytes, List.append_assoc]

end BlockHeader

/-- The streams that the miner may be called with for a header of a stream. -/
def HashedAs (own mined : StreamType) : Prop :=
  own = .streamA ∧ mined ≠ .streamB ∨ own = .streamB ∧ mined = .streamB

/-- The hash that the validators compute. -/
theorem BlockHeader.minerHash_eq_calculateHash {header : BlockHeader} {block : Block} {nonce : U64}
    (template : block.header = { header with nonce := nonce })
    (alike : HashedAs header.streamType mined) :
    header.minerHash crypto (block.transactionsRoot crypto) mined nonce =
      block.calculateHash crypto := by
  unfold minerHash Block.calculateHash
  rw [template]
  obtain ⟨_, _, own, _, _, _, _, _⟩ := header
  rcases alike with ⟨rfl, other⟩ | ⟨rfl, rfl⟩
  · cases mined with
    | streamB => exact absurd rfl other
    | streamA | streamC => exact congrArg crypto.blake3 (patchNonce_headerBytes ..)
  · rfl

/-- Nonces are tried one after the other, up to a bound. -/
def mineLoop (hashOf : U64 → Hash) (difficulty bound : U64) : ℕ → U64 → Option (U64 × Hash)
  | 0, _ => none
  | fuel + 1, nonce =>
    if meetsDifficulty (hashOf nonce) difficulty then some (nonce, hashOf nonce)
    else if bound ≤ nonce + 1 then none
    else mineLoop hashOf difficulty bound fuel (nonce + 1)

/-- The first nonce is tried whatever the bound. -/
def mineBlock (crypto : Crypto) (header : BlockHeader) (transactionsRoot : Hash)
    (streamType : StreamType) (maxIterations : Option U64) : Option (U64 × Hash) :=
  let bound := maxIterations.getD maxNonce
  mineLoop (header.minerHash crypto transactionsRoot streamType) header.difficulty bound
    (bound.toNat + 1) 0

/-- The first nonce that meets the difficulty, or none below the bound. -/
def FirstMeeting (hashOf : U64 → Hash) (difficulty bound : U64) : Option (U64 × Hash) → Prop
  | some (nonce, hash) => hash = hashOf nonce ∧ meetsDifficulty hash difficulty = true ∧
      ∀ smaller < nonce, meetsDifficulty (hashOf smaller) difficulty = false
  | none => ∀ nonce < bound, meetsDifficulty (hashOf nonce) difficulty = false

theorem firstMeeting_mineLoop {hashOf : U64 → Hash} {nonce : U64} (fits : nonce.toNat + 1 < 2 ^ 64)
    (enough : bound.toNat < nonce.toNat + fuel)
    (failed : ∀ smaller < nonce, meetsDifficulty (hashOf smaller) difficulty = false) :
    FirstMeeting hashOf difficulty bound (mineLoop hashOf difficulty bound fuel nonce) := by
  induction fuel generalizing nonce with
  | zero => exact fun smaller below => failed smaller (BitVec.lt_trans below enough)
  | succ fuel ih =>
    have next := Word.toNat_add_one fits
    unfold mineLoop
    split
    · next meets => exact ⟨rfl, meets, failed⟩
    · next misses =>
      have through :
          ∀ smaller < nonce + 1, meetsDifficulty (hashOf smaller) difficulty = false := by
        intro smaller below
        rw [BitVec.lt_def, next] at below
        rcases Nat.lt_succ_iff_lt_or_eq.mp below with earlier | last
        · exact failed smaller earlier
        · rw [BitVec.eq_of_toNat_eq last]
          exact Bool.eq_false_iff.mpr misses
      split
      · next reached =>
          exact fun smaller below => through smaller (Nat.lt_of_lt_of_le below reached)
      · next more =>
        rw [BitVec.le_def] at more
        exact ih (by omega) (by omega) through

/-- The first nonce that meets the difficulty is found, and the hash is the one that the validators
compute where the miner hashes as they do. -/
theorem mineBlock_valid (crypto : Crypto) (header : BlockHeader) (transactionsRoot : Hash)
    (mined : StreamType) (maxIterations : Option U64) :
    FirstMeeting (header.minerHash crypto transactionsRoot mined) header.difficulty
        (maxIterations.getD maxNonce)
          (mineBlock crypto header transactionsRoot mined maxIterations) ∧
      (HashedAs header.streamType mined → ∀ nonce (block : Block), block.header =
        { header with nonce := nonce } → block.transactionsRoot crypto = transactionsRoot →
          header.minerHash crypto transactionsRoot mined nonce = block.calculateHash crypto) := by
  constructor
  · exact firstMeeting_mineLoop (by decide) (by simp) fun _ below =>
      absurd below (Nat.not_lt_zero _)
  · rintro alike nonce block template rfl
    exact header.minerHash_eq_calculateHash template alike

def template (streamType : StreamType) (difficulty nonce : U64) : Block where
  header := ⟨[], 1, streamType, difficulty, 0, nonce, 0, 1⟩
  transactions := []
  hash := 0
  zkProof := none

/-- The third nonce is the first one whose hash begins with three zero bits. -/
example : mineBlock sample (template .streamA 3 0).header
    ((template .streamA 3 2).transactionsRoot sample) .streamA
    (some 50) = some (2, (template .streamA 3 2).calculateHash sample) := by
  decide +kernel

/-- Hashes that tell the lengths of messages, and nothing else. -/
def lengthCrypto : Crypto :=
  { sample with blake3 := fun bytes => BitVec.ofNat 256 bytes.length, keccak256 := fun _ => 0 }

/-- The template of one stream is mined as another, and refused with the hash that is mined. -/
def Refused (own mined : StreamType) : Prop :=
  ∃ hash, mineBlock lengthCrypto (template own 0 0).header
    ((template own 0 0).transactionsRoot lengthCrypto) mined none = some (0, hash) ∧
      { template own 0 0 with hash := hash }.verifyTxRoot lengthCrypto ≠ .ok ()

theorem refused_of_not_hashedAs {own mined : StreamType} (apart : ¬HashedAs own mined) :
    Refused own mined := by
  have long (header : BlockHeader) (root : Hash) : header.hashB3memhash lengthCrypto root =
      BitVec.ofNat 256 ((header.powInput root).length + 262144) := by
    have size := B3MemHash.length_memory lengthCrypto (header.powInput root)
    have flat : ((B3MemHash.memory lengthCrypto (header.powInput root)).flatMap be).length =
        262144 := by
      rw [List.length_flatMap, List.map_congr_left fun chunk _ => length_be chunk,
        List.map_const', size]
      decide +kernel
    rw [← flat, ← List.length_append]
    rfl
  have first : ∀ header : BlockHeader, header.difficulty = 0 →
      ∀ root, mineBlock lengthCrypto header root mined none =
      some (0, header.minerHash lengthCrypto root mined 0) := by
    intro header easy root
    have meets (hash : Hash) : meetsDifficulty hash 0 = true := by simp [meetsDifficulty]
    rw [mineBlock, mineLoop, easy, if_pos (meets _)]
  refine ⟨_, first _ rfl _, ?_⟩
  rw [ne_eq, Block.verifyTxRoot_eq_ok]
  cases own <;> cases mined <;> simp [HashedAs] at apart <;>
    simp only [template, BlockHeader.minerHash, Block.calculateHash, long] <;> decide

/-- A header of stream C, or one that is mined as the other stream, is refused. -/
theorem template_refused :
    (Refused .streamC .streamA ∧ Refused .streamC .streamB ∧ Refused .streamC .streamC) ∧
      Refused .streamA .streamB ∧ Refused .streamB .streamA ∧ Refused .streamB .streamC := by
  refine ⟨⟨?_, ?_, ?_⟩, ?_, ?_, ?_⟩ <;> exact refused_of_not_hashedAs (by simp [HashedAs])

end IronDag
