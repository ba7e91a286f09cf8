import Mathlib.Data.Nat.Log
import IronDag.Chain.BlockChecks

namespace IronDag

open Bytes BlockHeader List

section Preimages

variable {first second : BlockHeader}

theorem parents_append_inj {firstParents secondParents : List Hash} {firstRest secondRest : Bytes}
    (fixed : firstRest.length = secondRest.length)
    (same : firstParents.flatMap Bytes.be ++ firstRest =
      secondParents.flatMap Bytes.be ++ secondRest) :
    firstParents = secondParents ∧ firstRest = secondRest := by
  obtain ⟨parents, rest⟩ := append_inj' same fixed
  have width : ∀ hash : Hash, (Bytes.be hash).length = 32 := fun hash => length_be hash
  exact ⟨flatMap_injective (by decide) width (be_injective (by decide)) parents, rest⟩

theorem BlockHeader.powInput_inj (same : first.powInput firstRoot = second.powInput secondRoot) :
    first = { second with baseFeePerGas := first.baseFeePerGas } ∧ firstRoot = secondRoot := by
  obtain ⟨parents, rest⟩ := parents_append_inj (by simp) same
  obtain ⟨rest, version⟩ := append_inj' rest rfl
  obtain ⟨rest, root⟩ := append_inj' rest (by simp)
  obtain ⟨rest, stream⟩ := append_inj' rest rfl
  obtain ⟨rest, nonce⟩ := append_inj' rest (by simp)
  obtain ⟨rest, timestamp⟩ := append_inj' rest (by simp)
  obtain ⟨number, difficulty⟩ := append_inj' rest (by simp)
  have word : Function.Injective (Bytes.le : U64 → Bytes) := le_injective (by decide)
  refine ⟨?_, be_injective (by decide) root⟩
  cases first
  simp only [mk.injEq, true_and]
  exact ⟨parents, word number, StreamType.toByte_injective (cons.inj stream).1, word difficulty,
    word timestamp, word nonce, (cons.inj version).1⟩

theorem BlockHeader.headerInput_inj (same : first.headerInput = second.headerInput) :
    first = second := by
  obtain ⟨parents, rest⟩ := parents_append_inj (by simp) same
  obtain ⟨rest, version⟩ := append_inj' rest rfl
  obtain ⟨rest, baseFee⟩ := append_inj' rest (by simp)
  obtain ⟨rest, nonce⟩ := append_inj' rest (by simp)
  obtain ⟨rest, timestamp⟩ := append_inj' rest (by simp)
  obtain ⟨rest, difficulty⟩ := append_inj' rest (by simp)
  obtain ⟨number, stream⟩ := append_inj' rest rfl
  have word : Function.Injective (Bytes.le : U64 → Bytes) := le_injective (by decide)
  cases first
  cases second
  simp only [mk.injEq]
  exact ⟨parents, word number, StreamType.toByte_injective (cons.inj stream).1, word difficulty,
    word timestamp, word nonce, le_injective (by decide) baseFee, (cons.inj version).1⟩

/-- The memory buffer behind the input has the same length for every input. -/
theorem B3MemHash.finalInput_inj (same : finalInput crypto left = finalInput crypto right) :
    left = right := by
  refine (append_inj' same ?_).1
  simp [length_memory]

theorem Block.keccakInput_inj {left right : Block}
    (same : left.keccakInput crypto = right.keccakInput crypto) :
    left.header.calculateHeaderHash crypto = right.header.calculateHeaderHash crypto ∧
      left.transactionHashes = right.transactionHashes := by
  obtain ⟨headerHash, hashes⟩ := append_inj same (by simp)
  have width : ∀ hash : Hash, (Bytes.be hash).length = 32 := fun hash => length_be hash
  exact ⟨be_injective (by decide) headerHash,
    flatMap_injective (by decide) width (be_injective (by decide)) hashes⟩

end Preimages

namespace Block

variable (crypto : Crypto)

/-- What is hashed with Blake3 for the block hash, the memory-hard buffer apart. -/
def blake3Messages (block : Block) : List Bytes :=
  match block.header.streamType with
  | .streamA => [block.header.powInput (block.transactionsRoot crypto)]
  | .streamB =>
    [B3MemHash.finalInput crypto (block.header.powInput (block.transactionsRoot crypto))]
  | .streamC => []

/-- What is hashed with Keccak-256 for the block hash, the transactions root apart. -/
def keccakMessages (block : Block) : List Bytes :=
  match block.header.streamType with
  | .streamC => [block.header.headerInput, block.keccakInput crypto]
  | _ => []

/-- No two of the messages hashed for the two blocks collide. -/
structure CollisionFree (first second : Block) : Prop where
  blake3 : Set.InjOn crypto.blake3
    {message | message ∈ first.blake3Messages crypto ++ second.blake3Messages crypto}
  keccak256 :
    Set.InjOn crypto.keccak256
      {message | message ∈ first.keccakMessages crypto ++ second.keccakMessages crypto}

/-- The two blocks agree on what consensus reads from them. -/
structure SameContent (first second : Block) : Prop where
  parentHashes : first.header.parentHashes = second.header.parentHashes
  blockNumber : first.header.blockNumber = second.header.blockNumber
  timestamp : first.header.timestamp = second.header.timestamp
  difficulty : first.header.difficulty = second.header.difficulty
  nonce : first.header.nonce = second.header.nonce
  baseFeePerGas : first.header.baseFeePerGas = second.header.baseFeePerGas
  streamType : first.header.streamType = second.header.streamType
  hashVersion : first.header.hashVersion = second.header.hashVersion
  transactionsRoot : first.transactionsRoot crypto = second.transactionsRoot crypto
  transactionHashes : first.header.streamType = .streamC →
    first.transactionHashes = second.transactionHashes

variable {crypto}

/-- Apart from the base fee, a proof-of-work preimage determines the content. -/
theorem sameContent_iff_of_powInput (work : first.header.streamType ≠ .streamC)
    (same : first.header.powInput (first.transactionsRoot crypto) =
      second.header.powInput (second.transactionsRoot crypto)) :
    SameContent crypto first second ↔ first.header.baseFeePerGas = second.header.baseFeePerGas := by
  obtain ⟨header, root⟩ := powInput_inj same
  refine ⟨SameContent.baseFeePerGas, fun baseFee => ?_⟩
  have sameHeader : first.header = second.header := header.trans (by rw [baseFee])
  exact ⟨by rw [sameHeader], by rw [sameHeader], by rw [sameHeader], by rw [sameHeader],
    by rw [sameHeader], baseFee, by rw [sameHeader], by rw [sameHeader], root,
    fun keccak => absurd keccak work⟩

theorem sameContent_of_keccakInput (distinct : Set.InjOn crypto.keccak256
      {message | message ∈ [first.header.headerInput, second.header.headerInput]})
    (same : first.keccakInput crypto = second.keccakInput crypto) :
    SameContent crypto first second := by
  obtain ⟨headerHash, hashes⟩ := keccakInput_inj same
  have header := headerInput_inj (distinct (by simp) (by simp) headerHash)
  exact ⟨by rw [header], by rw [header], by rw [header], by rw [header], by rw [header],
    by rw [header], by rw [header], by rw [header],
    congrArg (calculateTransactionsRoot crypto) hashes, fun _ => hashes⟩

/-- Two blocks of one stream that pass the hash check with one hash have the same content exactly
if they are of stream C or carry the same base fee. -/
theorem sameContent_iff_of_verifyTxRoot (collisionFree : CollisionFree crypto first second)
    (stream : first.header.streamType = second.header.streamType)
    (firstPasses : first.verifyTxRoot crypto = .ok ())
    (secondPasses : second.verifyTxRoot crypto = .ok ())
    (sameHash : first.hash = second.hash) :
    SameContent crypto first second ↔
      first.header.streamType = .streamC ∨
        first.header.baseFeePerGas = second.header.baseFeePerGas := by
  obtain ⟨blake3, keccak256⟩ := collisionFree
  rw [verifyTxRoot_eq_ok] at firstPasses secondPasses
  rw [firstPasses, secondPasses] at sameHash
  unfold calculateHash at sameHash
  unfold blake3Messages at blake3
  unfold keccakMessages at keccak256
  rw [← stream] at sameHash blake3 keccak256
  cases kind : first.header.streamType with
  | streamA =>
    simp only [kind] at sameHash blake3
    have preimages := blake3 (by simp) (by simp) sameHash
    simpa using sameContent_iff_of_powInput (by simp [kind]) preimages
  | streamB =>
    simp only [kind] at sameHash blake3
    have preimages := B3MemHash.finalInput_inj (blake3 (by simp) (by simp) sameHash)
    simpa using sameContent_iff_of_powInput (by simp [kind]) preimages
  | streamC =>
    simp only [kind] at sameHash keccak256
    have preimages := keccak256 (by simp) (by simp) sameHash
    have headers : Set.InjOn crypto.keccak256
        {message | message ∈ [first.header.headerInput, second.header.headerInput]} := by
      refine keccak256.mono ?_
      intro message member
      simp only [Set.mem_ofPred_eq, mem_cons, cons_append, nil_append] at member ⊢
      tauto
    simpa using sameContent_of_keccakInput headers preimages

/-- A header of stream A, with its base fee left open. -/
def workHeader (baseFeePerGas : U128) : BlockHeader where
  parentHashes := [1]
  blockNumber := 1
  streamType := .streamA
  difficulty := 1
  timestamp := 1600000010
  nonce := 0
  baseFeePerGas
  hashVersion := 1

/-- The Keccak-256 digest of 32 zero bytes. -/
def emptyRoot : Hash :=
  0x290decd9548b62a8d60345a988386fc84ba6bc95484008f6362f93160ef3e563

def workHash : Hash :=
  0x3d2a33976af496a1d7905a451780863bc967cf43aa102aae91a2e3441e9374a9

/-- The sample library with the true digests of the two messages hashed here. -/
def recordedCrypto : Crypto :=
  { Crypto.sample with
    keccak256 := fun message =>
      if message = replicate 32 0 then emptyRoot else Crypto.sample.keccak256 message
    blake3 := fun message =>
      if message = (workHeader 0).powInput emptyRoot then workHash else
        Crypto.sample.blake3 message }

def workBlock (baseFeePerGas : U128) : Block where
  header := workHeader baseFeePerGas
  transactions := []
  hash := workHash
  zkProof := none

theorem workBlocks_collisionFree {left : U128} :
    CollisionFree recordedCrypto (workBlock left) (workBlock right) where
  blake3 := by
    intro one inOne other inOther _
    have only : ∀ message ∈ (workBlock left).blake3Messages recordedCrypto ++
        (workBlock right).blake3Messages recordedCrypto, message = (workHeader 0).powInput
          ((workBlock 0).transactionsRoot recordedCrypto) := by
      intro message member
      rcases mem_append.mp member with first | second
      · exact mem_singleton.mp first
      · exact mem_singleton.mp second
    rw [only one inOne, only other inOther]
  keccak256 := fun _ absent => absurd absent not_mem_nil

theorem workBlocks_sameContent_iff : CollisionFree recordedCrypto (workBlock 1000000000)
    (workBlock 2000000000) ∧
      (SameContent recordedCrypto (workBlock 1000000000) (workBlock 2000000000) ↔
        (workBlock 1000000000).header.streamType = .streamC ∨
          (workBlock 1000000000).header.baseFeePerGas =
            (workBlock 2000000000).header.baseFeePerGas) :=
  ⟨workBlocks_collisionFree, sameContent_iff_of_verifyTxRoot workBlocks_collisionFree rfl
    (by decide +kernel) (by decide +kernel) rfl⟩

/-- Two mined blocks with one hash and different base fees, both of which pass the hash check. -/
theorem workBlocks_differ_in_baseFee :
    CollisionFree recordedCrypto (workBlock 1000000000) (workBlock 2000000000) ∧
      (workBlock 1000000000).header.blockNumber ≠ 0 ∧
      (workBlock 2000000000).header.blockNumber ≠ 0 ∧
      (workBlock 1000000000).header.streamType = (workBlock 2000000000).header.streamType ∧
      (workBlock 1000000000).verifyTxRoot recordedCrypto = .ok () ∧
      (workBlock 2000000000).verifyTxRoot recordedCrypto = .ok () ∧
      (workBlock 1000000000).hash = (workBlock 2000000000).hash ∧
      ¬ SameContent recordedCrypto (workBlock 1000000000) (workBlock 2000000000) := by
  refine ⟨workBlocks_collisionFree, by decide, by decide, rfl, by decide +kernel,
    by decide +kernel, rfl, ?_⟩
  intro same
  exact absurd same.baseFeePerGas (by decide)

end Block

/-- What is hashed for one level of the tree. -/
def levelMessages : List Hash → List Bytes
  | [] => []
  | [last] => [be last ++ be last]
  | left :: right :: rest => (be left ++ be right) :: levelMessages rest

/-- What is hashed on the way from a level to the root. -/
def rootMessages (crypto : Crypto) : ℕ → List Hash → List Bytes
  | 0, _ => []
  | fuel + 1, level =>
    if level.length ≤ 1 then [] else levelMessages level ++ rootMessages crypto fuel
      (merkleLevel crypto level)

/-- The number of levels above the hashes, if there are any. -/
def treeDepth : List Hash → Option ℕ
  | [] => none
  | hashes => some (Nat.clog 2 hashes.length)

/-- Lists of one length, or without repetitions. -/
def Comparable (first second : List Hash) : Prop :=
  first.length = second.length ∨ first.Nodup ∧ second.Nodup

section TransactionsRoot

variable {crypto : Crypto} {first second : List Hash}

theorem merkleLevel_eq_map (level : List Hash) : merkleLevel crypto level =
    (levelMessages level).map crypto.keccak256 := by
  fun_induction levelMessages level with
  | case1 | case2 => rfl
  | case3 left right rest ih => rw [merkleLevel, map_cons, ih]

theorem pair_inj {left right left' right' : Hash}
    (joined : be left ++ be right = be left' ++ be right') :
    left = left' ∧ right = right' := by
  obtain ⟨front, back⟩ := append_inj joined (by simp)
  exact ⟨be_injective (by decide) front, be_injective (by decide) back⟩

theorem nodup_levelMessages (once : first.Nodup) : (levelMessages first).Nodup := by
  have begins : ∀ level, ∀ message ∈ levelMessages level, ∃ left ∈ level, ∃ right : Hash, message =
      be left ++ be right := by
    intro level
    fun_induction levelMessages level with
    | case1 => simp
    | case2 last => simp
    | case3 left right rest ih => grind
  fun_induction levelMessages first with
  | case1 => exact nodup_nil
  | case2 => exact nodup_singleton _
  | case3 left right rest ih =>
    rw [nodup_cons, nodup_cons] at once
    refine nodup_cons.mpr ⟨fun listed => ?_, ih once.2.2⟩
    obtain ⟨other, member, _, same⟩ := begins rest _ listed
    exact once.1 (mem_cons_of_mem _ ((pair_inj same).1 ▸ member))

/-- An odd last element is told from a pair by the length, or because nothing is repeated. -/
theorem levelMessages_inj (comparable : Comparable first second)
    (same : levelMessages first = levelMessages second) : first = second := by
  fun_induction levelMessages first generalizing second with
  | case1 =>
    cases second with
    | nil => rfl
    | cons head rest => cases rest <;> contradiction
  | case2 last =>
    match second with
    | [other] => rw [(pair_inj (head_eq_of_cons_eq same)).1]
    | left :: right :: rest =>
      obtain ⟨rfl, rfl⟩ := pair_inj (head_eq_of_cons_eq same)
      simp [Comparable] at comparable
  | case3 left right rest ih =>
    match second with
    | [other] =>
      obtain ⟨rfl, rfl⟩ := pair_inj (head_eq_of_cons_eq same)
      simp [Comparable] at comparable
    | left' :: right' :: rest' =>
      obtain ⟨rfl, rfl⟩ := pair_inj (head_eq_of_cons_eq same)
      rw [ih (comparable.imp ?_ ?_) (tail_eq_of_cons_eq same)]
      · simp
      · exact fun once => ⟨once.1.of_cons.of_cons, once.2.of_cons.of_cons⟩

section Level

variable (comparable : Comparable first second) (distinct : Set.InjOn crypto.keccak256
  {message | message ∈ levelMessages first ∨ message ∈ levelMessages second})

include comparable distinct

theorem merkleLevel_inj (same : merkleLevel crypto first = merkleLevel crypto second) :
    first = second := by
  rw [merkleLevel_eq_map, merkleLevel_eq_map] at same
  refine levelMessages_inj comparable
    (ext_getElem (by simpa using congrArg length same) fun index left right => ?_)
  have images := getElem_of_eq same (by simpa using left)
  rw [getElem_map, getElem_map] at images
  exact distinct (.inl (getElem_mem left)) (.inr (getElem_mem right)) images

theorem Comparable.merkleLevel :
    Comparable (merkleLevel crypto first) (merkleLevel crypto second) := by
  refine comparable.imp (fun lengths => ?_) fun once => ?_
  · rw [length_merkleLevel, length_merkleLevel, lengths]
  · rw [merkleLevel_eq_map, merkleLevel_eq_map]
    exact ⟨(nodup_levelMessages once.1).map_on fun _ one _ other =>
      distinct (.inl one) (.inl other),
      (nodup_levelMessages once.2).map_on fun _ one _ other => distinct (.inr one) (.inr other)⟩

end Level

theorem treeDepth_eq_some {hashes : List Hash} :
    treeDepth hashes = some depth ↔ 0 < hashes.length ∧ Nat.clog 2 hashes.length = depth := by
  cases hashes <;> simp [treeDepth]

theorem treeDepth_merkleLevel (crypto : Crypto) (depth : treeDepth first = some (below + 1)) :
    1 < first.length ∧ treeDepth (merkleLevel crypto first) = some below := by
  obtain ⟨some, depth⟩ := treeDepth_eq_some.mp depth
  have longer : 1 < first.length := by
    by_contra short
    rw [Nat.clog_of_right_le_one (Nat.le_of_not_lt short)] at depth
    contradiction
  rw [Nat.clog_of_one_lt (by decide) longer] at depth
  refine ⟨longer, treeDepth_eq_some.mpr ?_⟩
  rw [length_merkleLevel]
  exact ⟨by omega, Nat.succ_injective depth⟩

/-- Trees of one depth have the same root only over the same hashes. -/
theorem merkleRoot_inj (comparable : Comparable first second)
    (firstDepth : treeDepth first = some depth) (secondDepth : treeDepth second = some depth)
    (enough : first.length ≤ fuel + 1) (enough' : second.length ≤ fuel' + 1)
    (distinct : Set.InjOn crypto.keccak256
      {message | message ∈ rootMessages crypto fuel first ∨
        message ∈ rootMessages crypto fuel' second})
    (same : merkleRoot crypto fuel first = merkleRoot crypto fuel' second) : first = second := by
  have root_of_single : ∀ fuel (hash : Hash), merkleRoot crypto fuel [hash] = hash := by
    intro fuel hash
    cases fuel <;> simp [merkleRoot]
  have single : ∀ {hashes}, treeDepth hashes = some 0 → ∃ hash, hashes = [hash] := by
    intro hashes flat
    obtain ⟨some, depth⟩ := treeDepth_eq_some.mp flat
    refine length_eq_one_iff.mp (le_antisymm ?_ some)
    exact (Nat.clog_le_iff_le_pow (by decide)).mp depth.le
  induction depth generalizing first second fuel fuel' with
  | zero =>
    obtain ⟨hash, rfl⟩ := single firstDepth
    obtain ⟨hash', rfl⟩ := single secondDepth
    rw [root_of_single, root_of_single] at same
    rw [same]
  | succ below ih =>
    obtain ⟨longer, next⟩ := treeDepth_merkleLevel crypto firstDepth
    obtain ⟨longer', next'⟩ := treeDepth_merkleLevel crypto secondDepth
    cases fuel with
    | zero => omega
    | succ fuel =>
      cases fuel' with
      | zero => omega
      | succ fuel' =>
        simp only [rootMessages, merkleRoot, longer.not_ge, longer'.not_ge,
          if_false, mem_append] at distinct same
        refine merkleLevel_inj comparable (distinct.mono ?_)
          (ih ?_ next next' ?_ ?_ (distinct.mono ?_) same)
        · exact fun message hashed => hashed.imp Or.inl Or.inl
        · exact comparable.merkleLevel
            (distinct.mono fun message hashed => Or.imp Or.inl Or.inl hashed)
        · rw [length_merkleLevel]
          omega
        · rw [length_merkleLevel]
          omega
        · exact fun message hashed => hashed.imp Or.inr Or.inr

/-- Among the lists whose trees have one depth and that have one length or repeat nothing, the root
determines the list. -/
theorem calculateTransactionsRoot_inj (depth : treeDepth first = treeDepth second)
    (comparable : Comparable first second) (distinct : Set.InjOn crypto.keccak256 {message |
      message ∈ rootMessages crypto first.length first ++ rootMessages crypto second.length second})
    (same : calculateTransactionsRoot crypto first = calculateTransactionsRoot crypto second) :
    first = second := by
  cases first with
  | nil =>
    cases second with
    | nil => rfl
    | cons head rest => simp [treeDepth] at depth
  | cons head rest =>
    cases second with
    | nil => simp [treeDepth] at depth
    | cons head' rest' =>
      refine merkleRoot_inj comparable rfl depth.symm (Nat.le_succ _) (Nat.le_succ _)
        (distinct.mono fun _ => mem_append.mpr) ?_
      rwa [calculateTransactionsRoot, calculateTransactionsRoot] at same
      · exact cons_ne_nil _ _
      · exact cons_ne_nil _ _

end TransactionsRoot

theorem swapped_roots_differ :
    calculateTransactionsRoot Crypto.sample [1, 2, 3] ≠
      calculateTransactionsRoot Crypto.sample [2, 1, 4, 3] := by
  have distinct : ∀ one ∈ rootMessages Crypto.sample 3 [1, 2, 3] ++
      rootMessages Crypto.sample 4 [2, 1, 4, 3],
      ∀ other ∈ rootMessages Crypto.sample 3 [1, 2, 3] ++ rootMessages Crypto.sample 4 [2, 1, 4, 3],
        Crypto.sample.keccak256 one = Crypto.sample.keccak256 other → one = other := by
    decide +kernel
  have lists : ([1, 2, 3] : List Hash) ≠ [2, 1, 4, 3] := by decide
  exact fun same => lists (calculateTransactionsRoot_inj (by decide) (.inr (by decide))
    (fun _ one _ other => distinct _ one _ other) same)

/-- The last of three hashes may stand once or twice, and the hash of a pair is not told from the
pair. -/
theorem repeated_last_root :
    (Set.InjOn Crypto.sample.keccak256 {message |
        message ∈ rootMessages Crypto.sample 3 [1, 2, 3] ++
          rootMessages Crypto.sample 4 [1, 2, 3, 3]} ∧
      ∀ crypto, calculateTransactionsRoot crypto [1, 2, 3] =
        calculateTransactionsRoot crypto [1, 2, 3, 3]) ∧
    ∀ crypto, Set.InjOn crypto.keccak256 {message | message ∈ rootMessages crypto 2 [1, 2]} ∧
      calculateTransactionsRoot crypto [crypto.keccak256 (be (1 : Hash) ++ be (2 : Hash))] =
        calculateTransactionsRoot crypto [1, 2] := by
  have distinct : ∀ one ∈ rootMessages Crypto.sample 3 [1, 2, 3] ++
      rootMessages Crypto.sample 4 [1, 2, 3, 3],
      ∀ other ∈ rootMessages Crypto.sample 3 [1, 2, 3] ++ rootMessages Crypto.sample 4 [1, 2, 3, 3],
        Crypto.sample.keccak256 one = Crypto.sample.keccak256 other → one = other := by
    decide +kernel
  refine ⟨⟨fun _ one _ other => distinct _ one _ other, fun crypto => rfl⟩, fun crypto => ⟨?_, rfl⟩⟩
  intro one first other second _
  rw [mem_singleton.mp first, mem_singleton.mp second]

end IronDag
