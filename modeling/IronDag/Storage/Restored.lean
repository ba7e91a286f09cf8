import IronDag.Storage.Snapshot

namespace IronDag

open Relocation Bytes Finmap
open List hiding after

namespace Database

theorem commitBatch_eq {database : Database} {batch : Batch} : database.commitBatch batch =
      Relocation.writeAll (fun key _ => [key]) database
        (batch.map fun write => (write.1.key, write.2)) := by
  rw [Relocation.writeAll, foldl_map]
  rfl

theorem mem_batch_keys {batch : Batch} :
    (entity.key, value) ∈ batch.map (fun write => (write.1.key, write.2)) ↔
      (entity, value) ∈ batch := by
  rw [mem_map]
  constructor
  · rintro ⟨⟨other, held⟩, member, same⟩
    obtain ⟨keys, rfl⟩ := Prod.mk.injEq .. ▸ same
    exact Entity.key_injective keys ▸ member
  · intro member
    exact ⟨(entity, value), member, rfl⟩

theorem lookup_commitBatch_of_notMem {database : Database}
    (unwritten : ∀ write ∈ batch, write.1.key ≠ key) :
    (database.commitBatch batch).lookup key = database.lookup key := by
  rw [commitBatch_eq, lookup_writeAll, lastPlaced_eq_none_iff.mpr, Option.none_or]
  intro entry member placed
  obtain ⟨write, among, rfl⟩ := mem_map.mp member
  exact unwritten write among (mem_singleton.mp placed).symm

/-- What a batch writes for an entity, if it writes one value at most. -/
theorem lookup_commitBatch (database : Database)
    (written : ∀ value, (entity, value) ∈ batch ↔ recorded = some value) :
    (database.commitBatch batch).lookup entity.key = recorded.or (database.lookup entity.key) := by
  cases recorded with
  | none =>
    refine lookup_commitBatch_of_notMem ?_
    rintro ⟨other, value⟩ among same
    obtain rfl := Entity.key_injective same
    cases (written value).mp among
  | some value =>
    rw [commitBatch_eq, lookup_writeAll, Option.some_or]
    cases last : Relocation.lastPlaced (fun key _ => [key]) entity.key
        (batch.map fun write => (write.1.key, write.2)) with
    | none =>
      have absent := lastPlaced_eq_none_iff.mp last _ (mem_batch_keys.mpr ((written value).mpr rfl))
      exact absurd mem_cons_self absent
    | some found =>
      obtain ⟨origin, member, placed⟩ := mem_of_lastPlaced last
      obtain rfl := mem_singleton.mp placed
      rw [(written found).mp (mem_batch_keys.mp member)]
      rfl

theorem lookup_commitBatch_legacyKey (database : Database) (batch : Batch) (entity : Entity) :
    (database.commitBatch batch).lookup entity.legacyKey = database.lookup entity.legacyKey :=
  lookup_commitBatch_of_notMem fun _ _ same =>
    StorageMigrator.legacyKey_ne_key same.symm

namespace SnapshotManager

variable {accounts : Table Address (U128 × U64)}

theorem exists_of_bind {check : Except ε α} {next : α → Except ε β}
    (done : check >>= next = .ok result) :
    ∃ value, check = .ok value ∧ next value = .ok result := by
  cases check with
  | error reason => cases done
  | ok value => exact ⟨value, rfl, done⟩

theorem snapshotAccounts_spec
    (done : snapshotAccounts codec source accounts addresses = .ok taken) :
    (∀ account, account ∈ taken ↔ account.address ∈ addresses ∧
      accounts.getD account.address (0, 0) = (account.balance, account.nonce) ∧
      source.getContractCode codec account.address = .ok account.code) ∧
    ∀ address ∈ addresses, ∃ code, source.getContractCode codec address = .ok code := by
  induction addresses generalizing taken with
  | nil =>
    cases done
    simp
  | cons address rest ih =>
    obtain ⟨code, read, done⟩ := exists_of_bind done
    obtain ⟨others, later, done⟩ := exists_of_bind done
    cases done
    obtain ⟨members, readable⟩ := ih later
    refine ⟨fun account => ?_, forall_mem_cons.mpr ⟨⟨code, read⟩, readable⟩⟩
    rw [mem_cons, members, mem_cons]
    constructor
    · rintro (rfl | ⟨among, held⟩)
      · exact ⟨Or.inl rfl, rfl, read⟩
      · exact ⟨Or.inr among, held⟩
    · rintro ⟨same | among, held⟩
      · left
        obtain ⟨own, balance, nonce, stored⟩ := account
        obtain rfl : own = address := same
        obtain ⟨pair, coded⟩ := held
        cases read.symm.trans coded
        have listed : accounts.getD own (0, 0) = (balance, nonce) := pair
        have shape : AccountSnapshot.mk own (accounts.getD own (0, 0)).1
            (accounts.getD own (0, 0)).2 stored =
            { address := own, balance, nonce, code := stored } := by rw [listed]
        exact shape.symm
      · exact Or.inr ⟨among, held⟩

theorem getD_eq_iff_lookup (known : address ∈ accounts) :
    accounts.getD address (0, 0) = entry ↔ accounts.lookup address = some entry := by
  obtain ⟨held, looked⟩ := mem_iff.mp known
  rw [Table.getD, looked, Option.getD_some, Option.some.injEq]

theorem mem_slotsUnder {address : Address} :
    { address := address, key := slot, value := value } ∈ slotsUnder front source ↔
      source.lookup (front ++ (be address ++ be slot)) = some value := by
  have width : (be address).length = 20 := length_be address
  have depth : (be slot).length = 32 := length_be slot
  rw [slotsUnder, mem_filterMap]
  constructor
  · rintro ⟨⟨key, held⟩, member, read⟩
    split at read
    · next shape =>
      obtain ⟨rest, rfl⟩ := isPrefixOf_iff_prefix.mp shape.1
      have long : rest.length = 52 := by
        have total := shape.2
        rw [length_append] at total
        omega
      have whole : (rest.take 20).length = 20 := by rw [length_take, long]; rfl
      have tail : (rest.drop 20).length = 32 := by rw [length_drop, long]
      simp only [drop_left] at read
      obtain ⟨rfl, rfl, rfl⟩ := read
      rw [be_ofBE whole, be_ofBE tail, take_append_drop]
      exact StorageMigrator.mem_iter.mp member
    · cases read
  · intro held
    refine ⟨(front ++ (be address ++ be slot), value), StorageMigrator.mem_iter.mpr held, ?_⟩
    have front_is : isPrefixOf front (front ++ (be address ++ be slot)) = true :=
      isPrefixOf_iff_prefix.mpr (prefix_append _ _)
    have long : (front ++ (be address ++ be slot)).length = front.length + 52 := by
      rw [length_append, length_append, width, depth]
    rw [if_pos ⟨front_is, long⟩]
    simp only [drop_left, take_left' width, drop_left' width]
    rw [@ofBE_be 20, @ofBE_be 32]

/-- What stands before the address in the keys of the format that is scanned: the newest one in
which the database holds any slot. -/
def slotFormat (source : Database) : Bytes :=
  if slotsUnder [storageVersion, KeyPrefix.contractStorage] source = [] then
    if slotsUnder [LegacyPrefix.storage] source = [] then [] else [LegacyPrefix.storage]
  else
    [storageVersion, KeyPrefix.contractStorage]

theorem snapshotStorage_eq : snapshotStorage source = slotsUnder (slotFormat source) source := by
  unfold snapshotStorage slotFormat
  dsimp only
  split
  · split <;> rfl
  · rfl

theorem mem_putBlocks (done : putBlocks codec blocks = .ok batch)
    (member : write ∈ batch) : ∃ hash, write.1 = .block hash := by
  induction blocks generalizing batch with
  | nil =>
    cases done
    cases member
  | cons block rest ih =>
    rw [putBlocks] at done
    split at done
    · cases done
    · obtain ⟨others, later, done⟩ := exists_of_bind done
      cases done
      rcases mem_cons.mp member with rfl | among
      · exact ⟨block.hash, rfl⟩
      · exact ih later among

/-- The writes a snapshot of `source` leads to, for the entities that are read back. -/
structure Written (codec : StorageCodec) (source : Database) (accounts : Table Address (U128 × U64))
    (batch : Batch) : Prop where
  balance : ∀ address value, (.balance address, value) ∈ batch ↔
    (accounts.lookup address).map (fun entry => le entry.1) = some value
  nonce : ∀ address value, (.nonce address, value) ∈ batch ↔
    (accounts.lookup address).map (fun entry => le entry.2) = some value
  contract : ∀ address value, (.contract address, value) ∈ batch ↔
    address ∈ accounts ∧ ∃ code, source.getContractCode codec address = .ok (some code) ∧
      value = compressIfBeneficial codec code
  storage : ∀ address slot value, (.storage address slot, value) ∈ batch ↔
    source.lookup (slotFormat source ++ (be address ++ be slot)) = some value
  /-- A snapshot is only made of code that can be read. -/
  readable : ∀ address ∈ accounts, ∃ code, source.getContractCode codec address = .ok code

theorem mem_putAccount : (entity, value) ∈ putAccount codec account ↔
      entity = .balance account.address ∧ value = le account.balance ∨
      entity = .nonce account.address ∧ value = le account.nonce ∨
      ∃ code, account.code = some code ∧ entity = .contract account.address ∧
        value = compressIfBeneficial codec code := by
  simp only [putAccount, mem_append, mem_cons, not_mem_nil, or_false, Prod.mk.injEq,
    Option.mem_toList, Option.map_eq_some_iff, or_assoc]
  refine or_congr Iff.rfl (or_congr Iff.rfl (exists_congr fun code => and_congr Iff.rfl ?_))
  exact and_congr eq_comm eq_comm

theorem written_of_parts {listed : List AccountSnapshot} (member : ∀ account, account ∈ listed ↔
      accounts.lookup account.address = some (account.balance, account.nonce) ∧
        source.getContractCode codec account.address = .ok account.code)
    (readable : ∀ address ∈ accounts, ∃ code, source.getContractCode codec address = .ok code)
    (others : ∀ write ∈ blocks, ∃ hash, write.1 = .block hash) :
    Written codec source accounts
      (listed.flatMap (putAccount codec) ++ (snapshotStorage source).map putStorage ++ blocks) := by
  have split : ∀ entity value, (∀ hash, entity ≠ .block hash) →
      ((entity, value) ∈ listed.flatMap (putAccount codec) ++
        (snapshotStorage source).map putStorage ++ blocks ↔
        (∃ account ∈ listed, (entity, value) ∈ putAccount codec account) ∨
          ∃ entry ∈ snapshotStorage source, putStorage entry = (entity, value)) := by
    intro entity value stateful
    rw [mem_append, mem_append, mem_flatMap, mem_map, or_iff_left]
    intro block
    obtain ⟨hash, same⟩ := others _ block
    exact stateful hash same
  -- a part of the entry of each account
  have entries : ∀ (part : U128 × U64 → Bytes) address value, (accounts.lookup address).map part =
      some value ↔
      ∃ account ∈ listed, address = account.address ∧
        value = part (account.balance, account.nonce) := by
    intro part address value
    rw [Option.map_eq_some_iff]
    constructor
    · rintro ⟨⟨balance, nonce⟩, listedAs, rfl⟩
      obtain ⟨code, read⟩ := readable address (mem_of_lookup_eq_some listedAs)
      exact ⟨⟨address, balance, nonce, code⟩, (member _).mpr ⟨listedAs, read⟩, rfl, rfl⟩
    · rintro ⟨account, among, rfl, rfl⟩
      exact ⟨_, ((member account).mp among).1, rfl⟩
  refine ⟨?_, ?_, ?_, ?_, readable⟩
  · intro address value
    rw [split _ _ (by simp), entries]
    simp only [mem_putAccount, Entity.balance.injEq, reduceCtorEq, false_and, and_false,
      exists_false, or_false, putStorage, Prod.mk.injEq]
  · intro address value
    rw [split _ _ (by simp), entries]
    simp only [mem_putAccount, Entity.nonce.injEq, reduceCtorEq, false_and, and_false,
      exists_false, or_false, false_or, putStorage, Prod.mk.injEq]
  · intro address value
    rw [split _ _ (by simp)]
    simp only [mem_putAccount, Entity.contract.injEq, reduceCtorEq, false_and, and_false,
      exists_false, or_false, false_or, putStorage, Prod.mk.injEq]
    constructor
    · rintro ⟨account, among, code, held, rfl, rfl⟩
      obtain ⟨listedAs, read⟩ := (member account).mp among
      rw [held] at read
      exact ⟨mem_of_lookup_eq_some listedAs, code, read, rfl⟩
    · rintro ⟨known, code, read, rfl⟩
      obtain ⟨⟨balance, nonce⟩, listedAs⟩ := mem_iff.mp known
      exact ⟨⟨address, balance, nonce, some code⟩, (member _).mpr ⟨listedAs, read⟩, code,
        rfl, rfl, rfl⟩
  · intro address slot value
    rw [split _ _ (by simp), snapshotStorage_eq, ← mem_slotsUnder]
    simp only [mem_putAccount, reduceCtorEq, false_and, and_false, exists_false, or_false,
      false_or, putStorage, Prod.mk.injEq, Entity.storage.injEq]
    constructor
    · rintro ⟨entry, among, ⟨rfl, rfl⟩, rfl⟩
      exact among
    · intro among
      exact ⟨_, among, ⟨rfl, rfl⟩, rfl⟩

theorem restoreSnapshot_spec {hash : Hash}
    (created : createSnapshot codec order now source number hash accounts recent = .ok snapshot)
    (restored : restoreSnapshot codec target snapshot = .ok after) :
    ∃ batch, after = target.commitBatch batch ∧ Written codec source accounts batch := by
  obtain ⟨listed, taken, created⟩ := exists_of_bind created
  cases created
  obtain ⟨blocks, put, restored⟩ := exists_of_bind restored
  cases restored
  obtain ⟨members, readable⟩ := snapshotAccounts_spec taken
  have known : ∀ address, address ∈ order.toList accounts.keys ↔
      address ∈ accounts := fun address =>
    (order.mem_toList _ _).trans mem_keys
  refine ⟨_, rfl, written_of_parts ?_ ?_ fun write => mem_putBlocks put⟩
  · intro account
    rw [members, known]
    constructor
    · rintro ⟨among, held, read⟩
      exact ⟨(getD_eq_iff_lookup among).mp held, read⟩
    · rintro ⟨held, read⟩
      have among := mem_of_lookup_eq_some held
      exact ⟨among, (getD_eq_iff_lookup among).mpr held, read⟩
  · exact fun address among => readable address ((known address).mpr among)

/-- What `zstd` promises: a compressed text can be opened, and reads as the text. -/
structure ZstdRoundTrip (codec : StorageCodec) : Prop where
  opens : ∀ data compressed, codec.encodeAll data = .ok compressed →
    codec.decoderError compressed = none
  reads : ∀ data compressed, codec.encodeAll data = .ok compressed →
    ∀ limit, codec.readToEnd limit compressed = .ok (data.take limit)

/-- Code above the limit of the reader is not made shorter by compression, and so not compressed. -/
def Fits (codec : StorageCodec) (code : Bytes) : Prop :=
  maxDecompressSize < code.length →
    ∀ compressed, codec.encodeAll code = .ok compressed → code.length ≤ compressed.length

theorem decompress_flagged {data : Bytes} :
    decompressIfNeeded codec (flagUncompressed :: data) = .ok data := rfl

theorem decompress_compressed (roundTrip : ZstdRoundTrip codec)
    (encoded : codec.encodeAll data = .ok compressed) :
    decompressIfNeeded codec (flagCompressed :: compressed) = .ok data ↔
      data.length ≤ maxDecompressSize := by
  rw [decompressIfNeeded, if_pos rfl, roundTrip.opens data compressed encoded]
  simp only [roundTrip.reads data compressed encoded]
  generalize maxDecompressSize = limit
  by_cases small : data.length ≤ limit
  · rw [take_of_length_le (by omega)]
    simp
  · rw [if_pos (by rw [length_take]; omega)]
    simp [small]

theorem threshold_le_limit {length : ℕ} (large : maxDecompressSize < length) :
    ¬ length < compressionThreshold := by
  have : compressionThreshold ≤ maxDecompressSize := by decide +kernel
  omega

theorem decompress_compressIfBeneficial (roundTrip : ZstdRoundTrip codec) {code : Bytes} :
    decompressIfNeeded codec (compressIfBeneficial codec code) = .ok code ↔ Fits codec code := by
  unfold compressIfBeneficial Fits
  split
  · next short =>
    exact iff_of_true decompress_flagged fun large => absurd short (threshold_le_limit large)
  · split
    · next compressed encoded =>
      split
      · next shorter =>
        rw [decompress_compressed roundTrip encoded]
        constructor
        · intro small large
          exact absurd large (Nat.not_lt.mpr small)
        · intro fits
          by_contra large
          have kept := fits (Nat.not_le.mp large) compressed encoded
          exact absurd shorter (Nat.not_lt.mpr kept)
      · next longer =>
        refine iff_of_true decompress_flagged fun _ other again => ?_
        cases encoded.symm.trans again
        exact Nat.not_lt.mp longer
    · next reason refused =>
      refine iff_of_true decompress_flagged fun _ other again => ?_
      rw [refused] at again
      cases again

theorem readWord_le {word : BitVec (8 * width)} :
    readWord (8 * width) (Bytes.le word) = some word := by
  rw [readWord, if_pos (length_le word), ofLE_le]

/-- A word that the batch writes is read back, and one it does not write is left. -/
theorem getWord_commitBatch {width : ℕ} {entity : Entity} {recorded : Option (BitVec (8 * width))}
    (spec : ∀ value, (entity, value) ∈ batch ↔ recorded.map le = some value) (target : Database) :
    getWord (8 * width) ((target.commitBatch batch).lookup entity.key)
        ((target.commitBatch batch).lookup entity.legacyKey) =
      recorded.or (getWord (8 * width) (target.lookup entity.key)
        (target.lookup entity.legacyKey)) := by
  rw [lookup_commitBatch_legacyKey, lookup_commitBatch target spec]
  cases recorded with
  | none => rfl
  | some word =>
    rw [Option.map_some, Option.some_or, getWord, Option.bind_some, readWord_le,
      Option.some_or, Option.some_or]

section

variable (written : Written codec source accounts batch) (target : Database)

include written target

theorem Written.getBalance (address : Address) : (target.commitBatch batch).getBalance address =
      ((accounts.lookup address).map Prod.fst).or (target.getBalance address) := by
  refine @getWord_commitBatch batch 16 (.balance address) _ (fun value => ?_) target
  rw [written.balance, Option.map_map]
  rfl

theorem Written.getNonce (address : Address) : (target.commitBatch batch).getNonce address =
      ((accounts.lookup address).map Prod.snd).or (target.getNonce address) := by
  refine @getWord_commitBatch batch 8 (.nonce address) _ (fun value => ?_) target
  rw [written.nonce, Option.map_map]
  rfl

theorem Written.getContractCode_of_unwritten
    (unwritten : address ∉ accounts ∨ source.getContractCode codec address = .ok none) :
    (target.commitBatch batch).getContractCode codec address =
      target.getContractCode codec address := by
  have absent : ∀ value, (.contract address, value) ∈ batch ↔ none = some value := by
    refine fun value => iff_of_false (fun among => ?_) (by simp)
    obtain ⟨known, code, read, _⟩ := (written.contract address value).mp among
    rcases unwritten with unlisted | codeless
    · exact unlisted known
    · rw [codeless] at read
      cases read
  exact congrArg₂ (StorageMigrator.readCode codec) (lookup_commitBatch target absent)
    (lookup_commitBatch_legacyKey target batch (.contract address))

theorem Written.getContractCode_of_code (known : address ∈ accounts)
    (read : source.getContractCode codec address = .ok (some code))
    (roundTrip : ZstdRoundTrip codec) :
    (target.commitBatch batch).getContractCode codec address = .ok (some code) ↔
      Fits codec code := by
  have only : ∀ other, (.contract address, other) ∈ batch ↔
      some (compressIfBeneficial codec code) = some other := by
    intro other
    rw [written.contract, read]
    simp [known, eq_comm]
  have found : (target.commitBatch batch).lookup (contractKey address) =
      some (compressIfBeneficial codec code) :=
    lookup_commitBatch target only
  rw [Database.getContractCode, found, ← decompress_compressIfBeneficial roundTrip]
  dsimp only
  cases decompressIfNeeded codec (compressIfBeneficial codec code) <;> simp

theorem Written.getContractStorage (address : Address) (slot : BitVec 256) :
    (target.commitBatch batch).getContractStorage address slot =
      (source.lookup (slotFormat source ++ (be address ++ be slot))).or
        (target.getContractStorage address slot) := by
  have legacy := lookup_commitBatch_legacyKey target batch (.storage address slot)
  have found := lookup_commitBatch target (written.storage address slot)
  exact (congrArg₂ Option.or found legacy).trans (Option.or_assoc ..)

end

/-- The state readers return the same on both databases, for every address and slot. -/
structure SameState (codec : StorageCodec) (source after : Database) : Prop where
  balance : ∀ address, after.getBalance address = source.getBalance address
  nonce : ∀ address, after.getNonce address = source.getNonce address
  contractCode : ∀ address,
    after.getContractCode codec address = source.getContractCode codec address
  contractStorage : ∀ address slot,
    after.getContractStorage address slot = source.getContractStorage address slot

/-- When the snapshot of `source` with these accounts, restored into `target`, makes it read like
`source`. -/
structure Restorable (codec : StorageCodec) (source target : Database)
    (accounts : Table Address (U128 × U64)) : Prop where
  /-- The caller's map says what the database says. -/
  listed : ∀ address balance nonce, accounts.lookup address = some (balance, nonce) →
    source.getBalance address = some balance ∧ source.getNonce address = some nonce
  /-- Accounts that are not in the map read alike in both databases. -/
  unlisted : ∀ address ∉ accounts, target.getBalance address = source.getBalance address ∧
    target.getNonce address = source.getNonce address ∧
    target.getContractCode codec address = source.getContractCode codec address
  /-- An account without code has none in the target. -/
  codeless : ∀ address ∈ accounts, source.getContractCode codec address = .ok none →
    target.getContractCode codec address = .ok none
  fits : ∀ address ∈ accounts, ∀ code, source.getContractCode codec address = .ok (some code) →
    Fits codec code
  /-- The newest format in which the source holds any slot has the values that are read. -/
  scanned : ∀ address slot value,
    source.lookup (slotFormat source ++ (be address ++ be slot)) = some value →
    source.getContractStorage address slot = some value
  /-- Slots it does not hold read alike in both databases. -/
  unscanned : ∀ address slot, source.lookup (slotFormat source ++ (be address ++ be slot)) = none →
    target.getContractStorage address slot = source.getContractStorage address slot

section

variable (written : Written codec source accounts batch) (roundTrip : ZstdRoundTrip codec)

include written roundTrip

theorem Written.restorable
    (same : SameState codec source (target.commitBatch batch)) :
    Restorable codec source target accounts where
  listed address balance nonce held := by
    rw [← same.balance, ← same.nonce, written.getBalance, written.getNonce, held]
    exact ⟨rfl, rfl⟩
  unlisted address absent := by
    have missing := lookup_eq_none.mpr absent
    rw [← same.balance, ← same.nonce, ← same.contractCode, written.getBalance,
      written.getNonce, missing, written.getContractCode_of_unwritten target (Or.inl absent)]
    exact ⟨rfl, rfl, rfl⟩
  codeless address _ none := by
    rw [← written.getContractCode_of_unwritten target (Or.inr none), same.contractCode, none]
  fits address known code read := by
    rw [← written.getContractCode_of_code target known read roundTrip, same.contractCode, read]
  scanned address slot value held := by
    rw [← same.contractStorage, written.getContractStorage, held, Option.some_or]
  unscanned address slot missing := by
    rw [← same.contractStorage, written.getContractStorage, missing, Option.none_or]

theorem Written.sameState (restorable : Restorable codec source target accounts) :
    SameState codec source (target.commitBatch batch) where
  balance address := by
    rw [written.getBalance]
    cases held : accounts.lookup address with
    | none => exact (restorable.unlisted address (lookup_eq_none.mp held)).1
    | some entry => exact (restorable.listed address entry.1 entry.2 held).1.symm
  nonce address := by
    rw [written.getNonce]
    cases held : accounts.lookup address with
    | none => exact (restorable.unlisted address (lookup_eq_none.mp held)).2.1
    | some entry => exact (restorable.listed address entry.1 entry.2 held).2.symm
  contractCode address := by
    by_cases known : address ∈ accounts
    · obtain ⟨code, read⟩ := written.readable address known
      cases code with
      | none =>
        rw [written.getContractCode_of_unwritten target (Or.inr read),
          restorable.codeless address known read, read]
      | some code =>
        rw [(written.getContractCode_of_code target known read roundTrip).mpr
          (restorable.fits address known code read), read]
    · rw [written.getContractCode_of_unwritten target (Or.inl known)]
      exact (restorable.unlisted address known).2.2
  contractStorage address slot := by
    rw [written.getContractStorage]
    cases held : source.lookup (slotFormat source ++ (be address ++ be slot)) with
    | none => exact restorable.unscanned address slot held
    | some value => exact (restorable.scanned address slot value held).symm

end

/-- A restored database reads like the source of the snapshot exactly when the target held nothing
that the snapshot does not replace, and the snapshot took everything the readers of the source
see. -/
theorem restoreSnapshot_sameState_iff (codec : StorageCodec) (roundTrip : ZstdRoundTrip codec)
    (order : SetIteration Address) (now number : U64) (hash : Hash) (source target after : Database)
    (accounts : Table Address (U128 × U64)) (recent : List Block) (snapshot : BlockchainSnapshot)
    (created : createSnapshot codec order now source number hash accounts recent = .ok snapshot)
    (restored : restoreSnapshot codec target snapshot = .ok after) :
    SameState codec source after ↔ Restorable codec source target accounts := by
  obtain ⟨batch, rfl, written⟩ := restoreSnapshot_spec created restored
  exact ⟨written.restorable roundTrip, written.sameState roundTrip⟩

def oneAccount (address : Address) (balance : U128) : Database :=
  commitBatch ∅ [(.balance address, le balance), (.nonce address, le (0 : U64))]

def listedAccount : Table Address (U128 × U64) :=
  (∅ : Table Address (U128 × U64)).insert 1 (5, 0)

/-- The account of the snapshot and the account the target held before. -/
def mergedAccounts : Database :=
  (oneAccount 2 7).commitBatch [(.balance 1, le (5 : U128)), (.nonce 1, le (0 : U64))]

def takenOf (accounts : List AccountSnapshot) : BlockchainSnapshot where
  metadata :=
    { version := snapshotVersion, blockNumber := 0, blockHash := 0, createdAt := 0
      accountCount := accounts.length, blockCount := 0, stateSizeBytes := sizeBytes accounts [] []
      topAccounts := topAccounts accounts }
  accounts := accounts
  storage := []
  blocks := []

theorem oneAccount_taken :
    createSnapshot StorageMigrator.plainCodec
      (SetIteration.ascendingBy BitVec.toNat BitVec.toNat_injective) 0
      (oneAccount 1 5) 0 0 listedAccount [] = .ok (takenOf [⟨1, 5, 0, none⟩]) := by
  rfl

theorem plainCodec_roundTrip : ZstdRoundTrip StorageMigrator.plainCodec where
  opens _ _ _ := rfl
  reads data compressed encoded limit := by
    cases encoded
    rfl

theorem mergedAccounts_sameState_iff : SameState StorageMigrator.plainCodec
    (oneAccount 1 5) mergedAccounts ↔
      Restorable StorageMigrator.plainCodec (oneAccount 1 5) (oneAccount 2 7) listedAccount :=
  restoreSnapshot_sameState_iff StorageMigrator.plainCodec plainCodec_roundTrip
    (SetIteration.ascendingBy BitVec.toNat BitVec.toNat_injective) 0 0 0 (oneAccount 1 5)
    (oneAccount 2 7) mergedAccounts listedAccount [] (takenOf [⟨1, 5, 0, none⟩])
    oneAccount_taken rfl

/-- The account that the target held before is still there. -/
theorem mergedAccounts_not_sameState :
    createSnapshot StorageMigrator.plainCodec
      (SetIteration.ascendingBy BitVec.toNat BitVec.toNat_injective) 0
        (oneAccount 1 5) 0 0 listedAccount [] = .ok (takenOf [⟨1, 5, 0, none⟩]) ∧
      restoreSnapshot StorageMigrator.plainCodec (oneAccount 2 7)
        (takenOf [⟨1, 5, 0, none⟩]) = .ok mergedAccounts ∧
      ¬ SameState StorageMigrator.plainCodec (oneAccount 1 5) mergedAccounts := by
  refine ⟨oneAccount_taken, rfl, fun same => ?_⟩
  have both := same.balance 2
  cases both

end SnapshotManager

end Database

end IronDag
