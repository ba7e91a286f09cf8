import IronDag.Storage.Migration

namespace IronDag

open Relocation Bytes List
open Option hiding mem_map some

namespace Database

def Entity.tag : Entity → Byte
  | balance _ => KeyPrefix.balance
  | nonce _ => KeyPrefix.nonce
  | contract _ => KeyPrefix.contract
  | storage _ _ => KeyPrefix.contractStorage
  | children _ => KeyPrefix.children
  | parents _ => KeyPrefix.parents
  | block _ => KeyPrefix.block

def Entity.bytes : Entity → Bytes
  | balance address => be address
  | nonce address => be address
  | contract address => be address
  | storage address slot => be address ++ be slot
  | children parentHash => be parentHash
  | parents childHash => be childHash
  | block blockHash => be blockHash

/-- The word of the textual key, for entities that had one. -/
def Entity.word : Entity → Option String
  | balance _ => some "balance:"
  | nonce _ => some "nonce:"
  | contract _ => some "contract:"
  | storage _ _ => none
  | children _ => some "children:"
  | parents _ => some "parents:"
  | block _ => none

variable {entity : Entity}

theorem Entity.key_eq : entity.key = storageVersion :: entity.tag :: entity.bytes := by
  cases entity <;> rfl

theorem Entity.legacyKey_of_word {word : String} (textual : entity.word = some word) :
    entity.legacyKey = textKey word entity.bytes := by
  cases entity <;> cases textual <;> rfl

theorem Entity.key_injective : Function.Injective Entity.key := by
  intro left right same
  simp only [Entity.key_eq, cons.injEq, true_and] at same
  obtain ⟨tags, bytes⟩ := same
  have address : Function.Injective (be : Address → Bytes) := be_injective (by decide)
  have hash : Function.Injective (be : Hash → Bytes) := be_injective (by decide)
  cases left <;> cases right
  case balance.balance => exact congrArg _ (address bytes)
  case nonce.nonce => exact congrArg _ (address bytes)
  case contract.contract => exact congrArg _ (address bytes)
  case storage.storage =>
    obtain ⟨first, second⟩ := append_inj bytes (by rw [length_be, length_be])
    rw [address first, hash second]
  case children.children => exact congrArg _ (hash bytes)
  case parents.parents => exact congrArg _ (hash bytes)
  case block.block => exact congrArg _ (hash bytes)
  all_goals exact absurd tags (by simp only [Entity.tag]; decide)

namespace StorageMigrator

variable {codec : StorageCodec} {entity : Entity}

theorem stripPrefix_eq_some (stripped : stripPrefix word key = some rest) :
    key = Bytes.ofText word ++ rest := by
  unfold stripPrefix at stripped
  split at stripped
  · next is_prefix =>
    obtain ⟨behind, rfl⟩ := isPrefixOf_iff_prefix.mp is_prefix
    cases stripped
    rw [drop_left]
  · cases stripped

theorem decodeDigits_eq_some :
    decodeDigits width digits = some decoded ↔ Hex.decode digits = some (Bytes.be decoded) := by
  unfold decodeDigits
  cases Hex.decode digits with
  | none => simp
  | some bytes =>
    simp only [bind_eq_bind, bind_some, some.injEq]
    by_cases fits : bytes.length = width
    · rw [if_pos fits]
      constructor
      · intro read
        cases read
        exact (be_ofBE fits).symm
      · rintro rfl
        rw [ofBE_be]
        rfl
    · rw [if_neg fits]
      constructor
      · intro read
        cases read
      · rintro rfl
        simp at fits

theorem textKinds_spec : ∀ kind ∈ textKinds, ∀ digits entity, kind.2 digits = some entity →
    entity.word = some kind.1 ∧ Hex.decode digits = some entity.bytes := by
  simp only [textKinds, forall_mem_cons, not_mem_nil, false_implies, implies_true,
    and_true, Option.map_eq_some_iff]
  refine ⟨?_, ?_, ?_, ?_, ?_⟩
  all_goals
    rintro digits entity ⟨decoded, read, rfl⟩
    exact ⟨rfl, decodeDigits_eq_some.mp read⟩

/-- A textual key is the word of the entity and digits that decode to its bytes. -/
theorem textEntity_eq_some (found : textEntity key = some entity) :
    ∃ word digits, entity.word = some word ∧ key = Bytes.ofText word ++ digits ∧
      Hex.decode digits = some entity.bytes := by
  rw [textEntity, join_eq_some_iff] at found
  obtain ⟨kind, known, matched⟩ := exists_of_findSome?_eq_some found
  obtain ⟨digits, stripped, decoded⟩ := map_eq_some_iff.mp matched
  obtain ⟨textual, read⟩ := textKinds_spec kind known digits entity decoded
  exact ⟨kind.1, digits, textual, stripPrefix_eq_some stripped, read⟩

theorem decodeDigits_encode {width : ℕ} (word : BitVec (8 * width)) :
    decodeDigits width (Hex.encode (Bytes.be word)) = some word :=
  decodeDigits_eq_some.mpr Hex.decode_encode

theorem textEntity_legacyKey (textual : entity.word = some word) :
    textEntity entity.legacyKey = some entity := by
  have address : ∀ address : Address, decodeDigits 20 (Hex.encode (be address)) = some address :=
    @decodeDigits_encode 20
  have hash : ∀ hash : Hash, decodeDigits 32 (Hex.encode (be hash)) =
      some hash := @decodeDigits_encode 32
  cases entity <;> cases textual <;>
    simp [textEntity, textKinds, Entity.legacyKey, textKey, stripPrefix, ofText, address, hash]

theorem textEntity_length (found : textEntity key = some entity) :
    key.length ≠ 32 ∧ key.length ≠ 52 ∧ key.head? ≠ some storageVersion := by
  obtain ⟨word, digits, textual, rfl, decoded⟩ := textEntity_eq_some found
  have length := Hex.length_of_decode decoded
  rw [length_append, length]
  cases entity <;> cases textual <;>
    exact ⟨by simp [Entity.bytes], by simp [Entity.bytes, ofText], by simp [ofText, storageVersion]⟩

theorem entities_of_version (current : key.head? = some storageVersion) :
    entities codec key value = [] := by
  have text : textEntity key = none := by
    cases found : textEntity key with
    | none => rfl
    | some entity => exact absurd current (textEntity_length found).2.2
  simp [entities, text, rawBlockEntity, rawStorageEntity, current]

theorem entities_of_textual (textual : entity.word = some word) :
    entities codec entity.legacyKey value = [entity] := by
  have found := textEntity_legacyKey textual
  obtain ⟨block, slot, _⟩ := textEntity_length found
  simp [entities, found, rawBlockEntity, rawStorageEntity, block, slot]

theorem mem_entities (about : entity ∈ entities codec key value) :
    textEntity key = some entity ∨ entity.word = none ∧ key = entity.legacyKey := by
  simp only [entities, mem_append, Option.mem_toList] at about
  rcases about with (text | block) | slot
  · exact Or.inl text
  · unfold rawBlockEntity at block
    split at block
    · next bare =>
      split at block
      · cases block
        exact Or.inr ⟨rfl, (be_ofBE bare.1).symm⟩
      · cases block
    · cases block
  · unfold rawStorageEntity at slot
    split at slot
    · next bare =>
      cases slot
      have front : (key.take 20).length = 20 := by rw [length_take, bare.1]; rfl
      have back : (key.drop 20).length = 32 := by rw [length_drop, bare.1]
      refine Or.inr ⟨rfl, ?_⟩
      rw [Entity.legacyKey, be_ofBE front, be_ofBE back, take_append_drop]
    · cases slot

theorem legacyKey_of_mem_raw (raw : entity.word = none)
    (about : entity ∈ entities codec key value) : key = entity.legacyKey := by
  rcases mem_entities about with text | ⟨_, same⟩
  · obtain ⟨word, _, textual, _⟩ := textEntity_eq_some text
    rw [raw] at textual
    cases textual
  · exact same

theorem raw_length (raw : entity.word = none) :
    entity.legacyKey.length = 32 ∨ entity.legacyKey.length = 52 := by
  cases entity <;> cases raw
  · exact Or.inr (by simp [Entity.legacyKey])
  · exact Or.inl (by simp [Entity.legacyKey])

theorem raw_injective (raw : entity.word = none) (also : other.word = none)
    (same : entity.legacyKey = other.legacyKey) : entity = other := by
  have address : Function.Injective (be : Address → Bytes) := be_injective (by decide)
  have hash : Function.Injective (be : Hash → Bytes) := be_injective (by decide)
  have lengths := congrArg length same
  cases entity <;> cases raw <;> cases other <;> cases also
  case storage.refl.storage.refl =>
    obtain ⟨first, second⟩ := append_inj same (by rw [length_be, length_be])
    rw [address first, hash second]
  case block.refl.block.refl => exact congrArg _ (hash same)
  all_goals simp [Entity.legacyKey] at lengths

theorem eq_of_mem_entities (about : other ∈ entities codec entity.legacyKey value) :
    other = entity := by
  cases textual : entity.word with
  | some word =>
    rw [entities_of_textual textual] at about
    exact mem_singleton.mp about
  | none =>
    rcases mem_entities about with text | ⟨raw, same⟩
    · obtain ⟨block, slot, _⟩ := textEntity_length text
      exact ((raw_length textual).elim block slot).elim
    · exact (raw_injective textual raw same).symm

theorem append_le_append {front : List ℕ} (below : left ≤ right) :
    front ++ left ≤ front ++ right := by
  induction front with
  | nil => exact below
  | cons head rest ih => exact cons_le_cons head ih

/-- Of all keys that are about an entity, the one the readers know comes last. -/
theorem rank_le_legacyKey (about : entity ∈ entities codec key value) :
    key.map BitVec.toNat ≤ entity.legacyKey.map BitVec.toNat := by
  rcases mem_entities about with text | ⟨_, rfl⟩
  · obtain ⟨word, digits, textual, rfl, decoded⟩ := textEntity_eq_some text
    rw [Entity.legacyKey_of_word textual, textKey, map_append, map_append]
    exact append_le_append (Hex.le_encode_of_decode decoded)
  · exact le_refl _

theorem legacyKey_ne_key {other : Entity} : entity.legacyKey ≠ other.key := by
  intro same
  cases textual : entity.word with
  | some word =>
    have version := (textEntity_length (textEntity_legacyKey textual)).2.2
    rw [same, Entity.key_eq] at version
    exact version rfl
  | none =>
    have lengths := raw_length textual
    rw [same] at lengths
    cases other <;> simp [Entity.key_eq, Entity.bytes] at lengths

theorem key_mem_newKeys : entity.key ∈ newKeys codec key value ↔
    entity ∈ entities codec key value :=
  mem_map_of_injective Entity.key_injective

theorem mem_iter : (key, value) ∈ iter database ↔ database.lookup key = some value := mem_ascending

theorem mem_keysToDelete :
    key ∈ keysToDelete codec database ↔ ∃ value, database.lookup key = some value ∧
      newKeys codec key value ≠ [] := by
  simp only [keysToDelete, mem_flatMap, mem_map]
  constructor
  · rintro ⟨⟨origin, value⟩, member, other, placed, rfl⟩
    exact ⟨value, mem_iter.mp member, ne_nil_of_mem placed⟩
  · rintro ⟨value, held, moved⟩
    obtain ⟨other, placed⟩ := exists_mem_of_ne_nil _ moved
    exact ⟨(key, value), mem_iter.mpr held, other, placed, rfl⟩

/-- The value under the last key, in key order, that is about the entity and not current. -/
def lastLegacy (codec : StorageCodec) (database : Database) (entity : Entity) : Option Bytes :=
  Relocation.lastPlaced (newKeys codec) entity.key (iter database)

variable {codec : StorageCodec} {database : Database}

theorem lookup_key_migrate : (migrate codec database).2.lookup entity.key =
      (lastLegacy codec database entity).or (database.lookup entity.key) := by
  have kept : entity.key ∉ keysToDelete codec database := by
    intro deleted
    obtain ⟨value, _, moved⟩ := mem_keysToDelete.mp deleted
    rw [newKeys, entities_of_version (by rw [Entity.key_eq]; rfl)] at moved
    exact moved rfl
  rw [migrate, lookup_eraseAll, if_neg kept, lookup_writeAll]
  rfl

theorem lookup_legacyKey_migrate : (migrate codec database).2.lookup entity.legacyKey =
      if entity.legacyKey ∈ keysToDelete codec database then none
      else database.lookup entity.legacyKey := by
  have unwritten :
      Relocation.lastPlaced (newKeys codec) entity.legacyKey (iter database) = none := by
    refine lastPlaced_eq_none_iff.mpr fun entry _ placed => ?_
    obtain ⟨other, _, same⟩ := mem_map.mp placed
    exact legacyKey_ne_key same.symm
  rw [migrate, lookup_eraseAll, lookup_writeAll, unwritten, Option.none_or]
  by_cases deleted : entity.legacyKey ∈ keysToDelete codec database
  · rw [if_pos deleted, if_pos deleted]
  · rw [if_neg deleted, if_neg deleted]

theorem lastLegacy_of_held (held : database.lookup entity.legacyKey = some value)
    (about : entity ∈ entities codec entity.legacyKey value) : lastLegacy codec database entity =
      some value := by
  refine lastPlaced_of_greatest (pairwise_ascending rank_injective)
    (mem_iter.mpr held) (key_mem_newKeys.mpr about) ?_
  intro entry _ placed
  exact rank_le_legacyKey (key_mem_newKeys.mp placed)

theorem entity_of_moved (moves : newKeys codec entity.legacyKey value ≠ []) :
    entity ∈ entities codec entity.legacyKey value := by
  have some : entities codec entity.legacyKey value ≠ [] := by
    intro empty
    rw [newKeys, empty] at moves
    exact moves rfl
  obtain ⟨other, about⟩ := exists_mem_of_ne_nil _ some
  obtain rfl := eq_of_mem_entities about
  exact about

/-- Where no legacy entry is about the entity both keys are left alone. -/
theorem untouched (none : lastLegacy codec database entity = none) :
    (migrate codec database).2.lookup entity.key = database.lookup entity.key ∧
      (migrate codec database).2.lookup entity.legacyKey = database.lookup entity.legacyKey := by
  refine ⟨by rw [lookup_key_migrate, none, Option.none_or], ?_⟩
  rw [lookup_legacyKey_migrate, if_neg]
  intro deleted
  obtain ⟨value, held, moves⟩ := mem_keysToDelete.mp deleted
  rw [lastLegacy_of_held held (entity_of_moved moves)] at none
  cases none

/-- A textual entry that the readers know is the one that moves. -/
theorem legacy_of_textual (textual : entity.word = some word)
    (last : lastLegacy codec database entity = some moved) :
    database.lookup entity.legacyKey = some moved ∨ database.lookup entity.legacyKey = none := by
  cases held : database.lookup entity.legacyKey with
  | none => exact Or.inr rfl
  | some value =>
    rw [lastLegacy_of_held held (by rw [entities_of_textual textual]; exact mem_singleton_self _)]
      at last
    exact Or.inl last

theorem legacy_of_raw (raw : entity.word = none)
    (last : lastLegacy codec database entity = some moved) :
    database.lookup entity.legacyKey = some moved ∧
      entity ∈ entities codec entity.legacyKey moved := by
  obtain ⟨origin, member, placed⟩ := mem_of_lastPlaced last
  have about := key_mem_newKeys.mp placed
  obtain rfl := legacyKey_of_mem_raw raw about
  exact ⟨mem_iter.mp member, about⟩

/-- Otherwise the last one becomes the current entry, and none is left under the legacy key. -/
theorem replaced (last : lastLegacy codec database entity = some moved) :
    (migrate codec database).2.lookup entity.key = some moved ∧
      (migrate codec database).2.lookup entity.legacyKey = none := by
  refine ⟨by rw [lookup_key_migrate, last]; rfl, ?_⟩
  rw [lookup_legacyKey_migrate]
  split
  · rfl
  · next kept =>
    cases held : database.lookup entity.legacyKey with
    | none => rfl
    | some value =>
      exfalso
      refine kept (mem_keysToDelete.mpr ⟨value, held, ?_⟩)
      cases textual : entity.word with
      | some word => simp [newKeys, entities_of_textual textual]
      | none =>
        obtain ⟨same, about⟩ := legacy_of_raw textual last
        cases held.symm.trans same
        exact ne_nil_of_mem (key_mem_newKeys.mpr about)

/-- After one migration no entry is a legacy one. -/
theorem newKeys_migrate (held : (migrate codec database).2.lookup key = some value) :
    newKeys codec key value = [] := by
  rw [migrate, lookup_eraseAll, lookup_writeAll] at held
  split at held
  · cases held
  · next kept =>
    rcases Option.or_eq_some_iff.mp held with written | ⟨_, old⟩
    · obtain ⟨origin, _, placed⟩ := mem_of_lastPlaced written
      obtain ⟨entity, _, rfl⟩ := mem_map.mp placed
      rw [newKeys, entities_of_version (by rw [Entity.key_eq]; rfl)]
      rfl
    · by_contra moves
      exact kept (mem_keysToDelete.mpr ⟨value, old, moves⟩)

theorem migrate_of_current
    (current : ∀ key value, database.lookup key = some value → newKeys codec key value = []) :
    migrate codec database = (0, database) := by
  have none : keysToDelete codec database = [] := by
    rw [keysToDelete, flatMap_eq_nil_iff]
    rintro ⟨key, value⟩ member
    rw [current key value (mem_iter.mp member)]
    rfl
  have written : Relocation.writeAll (newKeys codec) database (iter database) = database := by
    apply Finmap.ext_lookup
    intro key
    rw [lookup_writeAll, lastPlaced_eq_none_iff.mpr, Option.none_or]
    rintro ⟨origin, value⟩ member
    rw [current origin value (mem_iter.mp member)]
    exact not_mem_nil
  rw [migrate, none, written]
  rfl

theorem migrate_migrate : migrate codec (migrate codec database).2 =
    (0, (migrate codec database).2) :=
  migrate_of_current fun _ _ => newKeys_migrate

/-- Every reader returns the same on both databases. -/
structure SameReads (codec : StorageCodec) (before after : Database) : Prop where
  balance : ∀ address, after.getBalance address = before.getBalance address
  nonce : ∀ address, after.getNonce address = before.getNonce address
  contractCode : ∀ address,
    after.getContractCode codec address = before.getContractCode codec address
  contractStorage : ∀ address slot,
    after.getContractStorage address slot = before.getContractStorage address slot
  children : ∀ parentHash, after.getChildren codec parentHash = before.getChildren codec parentHash
  parents : ∀ childHash, after.getParents codec childHash = before.getParents codec childHash
  block : ∀ hash, after.getBlock codec hash = before.getBlock codec hash

/-- A word may replace a word of the right length only if it is the same, and where there is none it
stands under the key the readers know, or is no word itself. -/
def KeepsWord (w : ℕ) (current legacy : Option Bytes) (moved : Bytes) : Prop :=
  match current.bind (readWord w) with
  | some _ => current = some moved
  | none => legacy = some moved ∨ moved.length ≠ w / 8

/-- Code may replace code that reads the same, and where there is none it stands under the key the
readers know and looks neither compressed nor flagged. -/
def KeepsCode (codec : StorageCodec) (current legacy : Option Bytes) (moved : Bytes) : Prop :=
  match current with
  | some stored => decompressIfNeeded codec moved = decompressIfNeeded codec stored
  | none => legacy = some moved ∧ decompressIfNeeded codec moved = .ok moved

/-- What may move to the current key of an entity without a reader noticing. -/
def Keeps (codec : StorageCodec) (database : Database) (entity : Entity) (moved : Bytes) : Prop :=
  let current := database.lookup entity.key
  let legacy := database.lookup entity.legacyKey
  match entity with
  | .balance _ => KeepsWord 128 current legacy moved
  | .nonce _ => KeepsWord 64 current legacy moved
  | .contract _ => KeepsCode codec current legacy moved
  | .storage _ _ => ∀ stored, current = some stored → stored = moved
  | .children _ | .parents _ =>
    match current with
    | some stored => codec.deserializeHashes moved = codec.deserializeHashes stored
    | none => legacy = some moved
  | .block _ =>
    ∀ stored, current = some stored → codec.deserializeBlock moved = codec.deserializeBlock stored

/-- A reader sees the two keys of one entity, and after the migration it sees the entry that
moved. -/
theorem read_migrate_iff {α : Type} (entity : Entity) (read : Option Bytes → Option Bytes → α)
    {keeps : Bytes → Prop} (decided : ∀ moved, lastLegacy codec database entity = some moved →
      (read (some moved) none =
        read (database.lookup entity.key) (database.lookup entity.legacyKey) ↔ keeps moved)) :
    read ((migrate codec database).2.lookup entity.key)
      ((migrate codec database).2.lookup entity.legacyKey) =
        read (database.lookup entity.key) (database.lookup entity.legacyKey) ↔
      ∀ moved, lastLegacy codec database entity = some moved → keeps moved := by
  cases last : lastLegacy codec database entity with
  | none =>
    obtain ⟨current, legacy⟩ := untouched last
    simp [current, legacy]
  | some moved =>
    obtain ⟨current, legacy⟩ := replaced last
    rw [current, legacy, decided moved last]
    simp

theorem readWord_injective
    (first : readWord (8 * width) left = some word)
    (second : readWord (8 * width) right = some word) :
    left = right := by
  unfold readWord at first second
  split at first
  · next leftFits =>
    split at second
    · next rightFits =>
      cases first
      rw [Nat.mul_div_cancel_left width (by omega)] at leftFits rightFits
      have same := Option.some.inj second
      rw [← le_ofLE leftFits, ← same, le_ofLE rightFits]
    · cases second
  · cases first

theorem keepsWord_iff {width : ℕ} {current legacy : Option Bytes}
    (known : legacy = some moved ∨ legacy = none) :
    getWord (8 * width) (some moved) none = getWord (8 * width) current legacy ↔
      KeepsWord (8 * width) current legacy moved := by
  have alone : getWord (8 * width) (some moved) none = readWord (8 * width) moved := by
    simp [getWord]
  rw [alone, getWord, KeepsWord]
  cases stored : current.bind (readWord (8 * width)) with
  | some word =>
    obtain ⟨value, rfl, read⟩ := bind_eq_some_iff.mp stored
    rw [some_or]
    constructor
    · intro same
      rw [readWord_injective same read]
    · intro same
      rw [← some.inj same, read]
  | none =>
    rcases known with rfl | rfl
    · simp
    · simp [readWord]

/-- The reader of contract code on the two entries it looks at. -/
def readCode (codec : StorageCodec) (current legacy : Option Bytes) :
    Except BlockchainError (Option Bytes) :=
  match current with
  | some value =>
    match decompressIfNeeded codec value with
    | .ok decompressed => .ok (some decompressed)
    | .error reason => .error (.storage reason)
  | none => .ok legacy

theorem keepsCode_iff (known : legacy = some moved ∨ legacy = none) :
    readCode codec (some moved) none = readCode codec current legacy ↔
      KeepsCode codec current legacy moved := by
  cases current with
  | some stored =>
    simp only [readCode, KeepsCode]
    cases decompressIfNeeded codec moved <;> cases decompressIfNeeded codec stored <;> simp
  | none =>
    simp only [readCode, KeepsCode]
    rcases known with rfl | rfl <;> cases decompressIfNeeded codec moved <;> simp

theorem getDecoded_eq_iff {left : Bytes} {legacy : Option Bytes} :
    getDecoded deserialize (some left) none = getDecoded deserialize (some right) legacy ↔
      deserialize left = deserialize right := by
  simp only [getDecoded, Option.some_or]
  cases deserialize left <;> cases deserialize right <;> simp

theorem keepsDecoded_iff (deserialize : Bytes → Except String α)
    (known : legacy = some moved ∨ legacy = none) :
    getDecoded deserialize (some moved) none = getDecoded deserialize current legacy ↔
      match current with
      | some stored => deserialize moved = deserialize stored
      | none => legacy = some moved := by
  cases current with
  | some stored => exact getDecoded_eq_iff
  | none =>
    rcases known with rfl | rfl
    · simp [getDecoded]
    · simp only [getDecoded, Option.some_or]
      cases deserialize moved <;> simp

section Readers

variable (codec database)

/-- The readers return what they did on this entity. -/
def ReadsAlike (entity : Entity) : Prop :=
  let after := (migrate codec database).2
  match entity with
  | .balance address => after.getBalance address = database.getBalance address
  | .nonce address => after.getNonce address = database.getNonce address
  | .contract address =>
    after.getContractCode codec address = database.getContractCode codec address
  | .storage address slot =>
    after.getContractStorage address slot = database.getContractStorage address slot
  | .children parentHash =>
    after.getChildren codec parentHash = database.getChildren codec parentHash
  | .parents childHash => after.getParents codec childHash = database.getParents codec childHash
  | .block hash => after.getBlock codec hash = database.getBlock codec hash

theorem readsAlike_iff (entity : Entity) : ReadsAlike codec database entity ↔
      ∀ moved, lastLegacy codec database entity = some moved →
        Keeps codec database entity moved := by
  cases entity with
  | balance address =>
    exact read_migrate_iff (.balance address) (getWord 128) fun moved last =>
      @keepsWord_iff moved 16 _ _ (legacy_of_textual rfl last)
  | nonce address =>
    exact read_migrate_iff (.nonce address) (getWord 64) fun moved last =>
      @keepsWord_iff moved 8 _ _ (legacy_of_textual rfl last)
  | contract address =>
    exact read_migrate_iff (.contract address) (readCode codec) fun moved last =>
      keepsCode_iff (legacy_of_textual rfl last)
  | storage address slot =>
    refine read_migrate_iff (.storage address slot) Option.or fun moved last => ?_
    obtain ⟨held, _⟩ := legacy_of_raw rfl last
    rw [held]
    cases current : database.lookup (Entity.storage address slot).key <;>
      simp [Keeps, current, eq_comm]
  | children parentHash =>
    exact read_migrate_iff (.children parentHash) (getDecoded codec.deserializeHashes)
      fun moved last =>
      keepsDecoded_iff codec.deserializeHashes (legacy_of_textual rfl last)
  | parents childHash =>
    exact read_migrate_iff (.parents childHash) (getDecoded codec.deserializeHashes)
      fun moved last =>
      keepsDecoded_iff codec.deserializeHashes (legacy_of_textual rfl last)
  | block hash =>
    refine read_migrate_iff (.block hash) (getDecoded codec.deserializeBlock) fun moved last => ?_
    obtain ⟨held, _⟩ := legacy_of_raw rfl last
    rw [held]
    cases current : database.lookup (Entity.block hash).key with
    | none => simp [getDecoded, Keeps, current]
    | some stored =>
      rw [getDecoded_eq_iff]
      simp [Keeps, current]

theorem sameReads_iff :
    SameReads codec database (migrate codec database).2 ↔
      ∀ entity, ReadsAlike codec database entity := by
  constructor
  · intro same entity
    cases entity with
    | balance address => exact same.balance address
    | nonce address => exact same.nonce address
    | contract address => exact same.contractCode address
    | storage address slot => exact same.contractStorage address slot
    | children parentHash => exact same.children parentHash
    | parents childHash => exact same.parents childHash
    | block hash => exact same.block hash
  · intro alike
    exact ⟨fun address => alike (.balance address), fun address => alike (.nonce address),
      fun address => alike (.contract address), fun address slot => alike (.storage address slot),
      fun parentHash => alike (.children parentHash), fun childHash => alike (.parents childHash),
      fun hash => alike (.block hash)⟩

end Readers

/-- A migration is not noticed by any reader, and a second one changes nothing, exactly when every
legacy entry that moves agrees with what the readers preferred to it. -/
theorem migrate_sameReads_iff (codec : StorageCodec) (database : Database) :
    SameReads codec database (migrate codec database).2 ∧
        (migrate codec (migrate codec database).2).2 = (migrate codec database).2 ↔
      ∀ entity moved, lastLegacy codec database entity = some moved →
        Keeps codec database entity moved := by
  rw [migrate_migrate, sameReads_iff, and_iff_left rfl]
  exact forall_congr' (readsAlike_iff codec database)

/-- A codec that stores blocks and lists nowhere and compresses nothing. -/
def plainCodec : StorageCodec where
  serializeBlock := fun _ => .error "unsupported"
  deserializeBlock := fun _ => .error "unsupported"
  deserializeHashes := fun _ => .error "unsupported"
  encodeAll := fun data => .ok data
  decoderError := fun _ => none
  readToEnd := fun limit data => .ok (data.take limit)

/-- The account holds 7; an older version left the 5 it held before. -/
def updatedBalance : Database :=
  ((∅ : Database).insert (textKey "balance:" (be (1 : Address))) (le (5 : U128))).insert
    (balanceKey 1) (le (7 : U128))

theorem updatedBalance_reverted :
    ¬ (SameReads plainCodec updatedBalance (migrate plainCodec updatedBalance).2 ∧
      (migrate plainCodec (migrate plainCodec updatedBalance).2).2 =
        (migrate plainCodec updatedBalance).2) := by
  rintro ⟨same, _⟩
  have reverted := same.balance 1
  exact absurd reverted (by decide)

end StorageMigrator

end Database

end IronDag
