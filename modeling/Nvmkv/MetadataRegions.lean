import Nvmkv.LogicalRanges
import Nvmkv.PoolTagBatches

/-!
# The regions of the metadata

Three classes place the store's own records: the layout puts the metadata at the first
sector, the bitmap of the pools in use behind it and the tags at the next slot; the pool
manager puts the bitmap of the pools being deleted behind the first bitmap; and the store
reserves slots for the tags and one slot more. Each rounds in its own unit, bits to words,
bytes to sectors and tags to slots.

Counted in bytes, the places follow one another: the metadata, both bitmaps, the tags and
then the user data. A write for one pool takes a single sector of a bitmap or of the tags,
and finds it by shifting the number of the pool. Shifting finds the sector in which the
record of the pool starts, and since records do not cross sectors it is also the sector in
which the record ends.
-/

namespace Nvmkv

/-- The bytes of the metadata (`sizeof(nvm_kv_store_metadata_t)`). -/
def storeMetadataSize : Nat := 64

/-- The memory from which the pool manager writes. -/
structure PoolMgrMemory where
  pPoolTags : Memory
  pStoreMetadata : Memory
  inUse : Memory
  deleted : Memory

/-- Two ranges have no sector in common. -/
def NvmBlockRange.Apart (one other : NvmBlockRange) : Prop :=
  ∀ lba, one.Covers lba → ¬other.Covers lba

namespace NvmKvStore

variable (store : NvmKvStore)

/-- The sector of the metadata (`M_KV_METADATA_LBA`). -/
def metadataLba : Nat := 0

/-- Bytes of the metadata on the media. -/
def metadataLen : Nat := nvmKvRoundUptoBlk storeMetadataSize store.sectorSize

/-- Where the bitmap of the pools in use starts (`get_inuse_bm_lba`). -/
def inUseBmLba : Nat := store.metadataLen / store.sectorSize

/-- Where the bitmap of the pools being deleted starts. The pool manager hands it to the
layout in 32 bits. -/
def delBmLba : Nat := (store.inUseBmLba + store.bmLen / store.sectorSize) % 2 ^ 32

/-- The sectors set aside for a structure. -/
def region : StoreInfo → NvmBlockRange
  | .kvstoreMetadata => ⟨metadataLba, store.metadataLen / store.sectorSize⟩
  | .bmInuse => ⟨store.inUseBmLba, store.bmLen / store.sectorSize⟩
  | .bmDeleted => ⟨store.delBmLba, store.bmLen / store.sectorSize⟩
  | .poolTags => ⟨store.poolTagsLba, store.poolTagsLen / store.sectorSize⟩

/-- The vector of one sector of a structure. -/
def sectorVector (memory : Memory) (lba sector : Nat) : NvmIovec where
  iovBase :=
    { address := memory.address + sector * store.sectorSize
      bytes := memory.bytes.drop (sector * store.sectorSize) }
  iovLen := store.sectorSize
  iovLba := lba + sector
  iovOpcode := .write

/-- The vector of a whole structure. -/
def wholeVector (memory : Memory) (length lba : Nat) : NvmIovec where
  iovBase := memory
  iovLen := length
  iovLba := lba
  iovOpcode := .write

/-- The vector of a bitmap: the whole of it, or the sector of a pool. -/
def bitmapVector (memory : Memory) (lba : Nat) (poolIndex : Option Nat) : NvmIovec :=
  match poolIndex with
  | none => wholeVector memory store.bmLen lba
  | some index => store.sectorVector memory lba (bitIndexSector index store.sectBits)

/-- The vectors of one write, in the order in which the code fills them in. The tags of all
pools are not among them. -/
def storeInfoVectors (memory : PoolMgrMemory) (type : List StoreInfo) (poolIndex : Option Nat) :
    List NvmIovec :=
  (if .poolTags ∈ type then
    match poolIndex with
    | none => []
    | some index =>
        [store.sectorVector memory.pPoolTags store.poolTagsLba (store.getPoolTagSect index)]
  else []) ++
  (if .kvstoreMetadata ∈ type then
    [wholeVector memory.pStoreMetadata store.metadataLen metadataLba]
  else []) ++
  (if .bmInuse ∈ type then [store.bitmapVector memory.inUse store.inUseBmLba poolIndex] else []) ++
  (if .bmDeleted ∈ type then [store.bitmapVector memory.deleted store.delBmLba poolIndex] else [])

/-- Write structures of the manager to the media (`persist_store_info`). The tags of all
pools are written on their own beforehand, for there may be too many vectors of them. -/
def persistStoreInfoWrites (memory : PoolMgrMemory) (maxTotalSize : Nat) (type : List StoreInfo)
    (poolIndex : Option Nat) : StoreM (Except NvmErrorCode Unit) := do
  let retCode ←
    if .poolTags ∈ type ∧ poolIndex = none then persistTags store memory.pPoolTags maxTotalSize
    else pure (.ok ())
  match retCode with
  | .error code => pure (.error code)
  | .ok () => nvmWritev (store.storeInfoVectors memory type poolIndex)

end NvmKvStore

/-- The record of a pool in a structure: where it starts, in bytes, and its size. For a
bitmap it is the word with the bit of the pool. -/
def recordOf (pool : Nat) : StoreInfo → Nat × Nat
  | .kvstoreMetadata => (0, storeMetadataSize)
  | .bmInuse | .bmDeleted => (pool / 32 * 4, 4)
  | .poolTags => (pool * poolTagSize, poolTagSize)

/-- Where the manager keeps a structure. -/
def PoolMgrMemory.structureOf (memory : PoolMgrMemory) : StoreInfo → Memory
  | .kvstoreMetadata => memory.pStoreMetadata
  | .bmInuse => memory.inUse
  | .bmDeleted => memory.deleted
  | .poolTags => memory.pPoolTags

/-- A vector writes sectors of the structure's own region, takes every byte from its own
place in memory, and carries the record of the pool. -/
structure WritesRecord (store : NvmKvStore) (memory : PoolMgrMemory) (pool : Nat)
    (info : StoreInfo) (vector : NvmIovec) : Prop where
  opcode : vector.iovOpcode = .write
  sectors : vector.iovLen / store.sectorSize * store.sectorSize = vector.iovLen
  inside : ∀ lba, vector.iovLba ≤ lba ∧ lba < vector.iovLba + vector.iovLen / store.sectorSize →
    (store.region info).Covers lba
  own : ∃ offset,
    vector.iovBase = ⟨(memory.structureOf info).address + offset,
      (memory.structureOf info).bytes.drop offset⟩ ∧
    vector.iovLba * store.sectorSize = (store.region info).startLba * store.sectorSize + offset
  record : vector.iovLba * store.sectorSize ≤
      (store.region info).startLba * store.sectorSize + (recordOf pool info).1 ∧
    (store.region info).startLba * store.sectorSize + (recordOf pool info).1 +
      (recordOf pool info).2 ≤ vector.iovLba * store.sectorSize + vector.iovLen

section Places

variable {store : NvmKvStore}

/-- A length rounded up is a number of sectors. -/
theorem rounded_sectors (length : Nat) (bounded : length < 2 ^ 63) :
    nvmKvRoundUptoBlk length store.sectorSize / store.sectorSize * store.sectorSize =
      nvmKvRoundUptoBlk length store.sectorSize := by
  have rounded : nvmKvRoundUptoBlk length store.sectorSize = _ :=
    store.capabilities.round_upto_sector length bounded
  rw [rounded]
  exact Nat.div_mul_cancel (Nat.dvd_mul_left _ _)

/-- A bitmap has at most 128 KiB. -/
theorem bitmap_bytes_small : round32 store.maxPools / 8 ≤ 131072 := by
  have pools : store.maxPools ≤ 1048576 := store.poolsBounded
  unfold round32
  omega

/-- The tags have at most 16 MiB. -/
theorem tag_bytes_small : poolTagSize * store.maxPools ≤ 2 ^ 24 := by
  have pools : store.maxPools ≤ 1048576 := store.poolsBounded
  unfold poolTagSize
  omega

/-- The metadata of the store are whole sectors. -/
theorem metadataLen_sectors :
    store.metadataLen / store.sectorSize * store.sectorSize = store.metadataLen :=
  rounded_sectors storeMetadataSize (by decide)

/-- So is a bitmap. -/
theorem bmLen_sectors : store.bmLen / store.sectorSize * store.sectorSize = store.bmLen :=
  rounded_sectors _ (Nat.lt_of_le_of_lt bitmap_bytes_small (by decide))

/-- So are the tags. -/
theorem poolTagsLen_sectors :
    store.poolTagsLen / store.sectorSize * store.sectorSize = store.poolTagsLen :=
  rounded_sectors _ (Nat.lt_of_le_of_lt tag_bytes_small (by decide))

/-- The metadata fit in their sectors, which have at most 8192 bytes. -/
theorem metadataLen_bounds :
    storeMetadataSize ≤ store.metadataLen ∧ store.metadataLen ≤ 8192 := by
  have upper := store.sector_upper
  obtain ⟨enough, close⟩ := store.round_upto_sector_bounds storeMetadataSize (by decide)
  have size : storeMetadataSize = 64 := rfl
  exact ⟨enough, by unfold NvmKvStore.metadataLen; omega⟩

/-- A bitmap in whole sectors has at most 256 KiB. -/
theorem bmLen_upper : store.bmLen ≤ 262144 := by
  have upper := store.sector_upper
  have small := @bitmap_bytes_small store
  have close := (store.round_upto_sector_bounds (round32 store.maxPools / 8) (by omega)).2
  unfold NvmKvStore.bmLen
  omega

/-- The deleted bitmap's sector is not cut off. -/
theorem delBmLba_eq :
    store.delBmLba = store.inUseBmLba + store.bmLen / store.sectorSize := by
  have metadata : store.inUseBmLba ≤ store.metadataLen := Nat.div_le_self _ _
  have bitmap : store.bmLen / store.sectorSize ≤ store.bmLen := Nat.div_le_self _ _
  have small := @metadataLen_bounds store
  have upper := @bmLen_upper store
  exact Nat.mod_eq_of_lt (by omega)

/-- The tags start with a slot. -/
theorem poolTagsLba_bytes : store.poolTagsLba * store.sectorSize = mKvMaxValueRange := by
  obtain ⟨product, _, _⟩ := store.sector_value_bits
  exact Nat.div_mul_cancel (Dvd.intro _ product)

/-- The data area starts at the slice that is left for the metadata. -/
theorem dataStartLba_bytes :
    store.dataStartLba * store.sectorSize = store.sliceAddr * mKvMaxValueRange := by
  obtain ⟨product, _, _⟩ := store.sector_value_bits
  exact Nat.div_mul_cancel (Nat.dvd_trans (Dvd.intro _ product) (Nat.dvd_mul_left _ _))

/-- The slots that are reserved hold the tags behind the first one. -/
theorem poolTagsLen_reserved :
    mKvMaxValueRange + store.poolTagsLen ≤ store.sliceAddr * mKvMaxValueRange := by
  have upper := store.sector_upper
  have small := @tag_bytes_small store
  have close := (store.round_upto_sector_bounds (poolTagSize * store.maxPools) (by omega)).2
  have slots : nvmKvRoundUptoBlk store.poolTagsLen mKvMaxValueRange =
      (store.poolTagsLen + (2 ^ 21 - 1)) / 2 ^ 21 * 2 ^ 21 :=
    round_upto_pow store.poolTagsLen 21 (by norm_num) (by unfold NvmKvStore.poolTagsLen; omega)
  have reserved : store.sliceAddr =
      nvmKvRoundUptoBlk store.poolTagsLen mKvMaxValueRange / mKvMaxValueRange + 1 := rfl
  rw [reserved, slots]
  unfold mKvMaxValueRange
  omega

/-- Where a region starts and how long it is, in bytes. -/
theorem region_bytes (info : StoreInfo) :
    (store.region info).startLba * store.sectorSize =
      (match info with
      | .kvstoreMetadata => 0
      | .bmInuse => store.metadataLen
      | .bmDeleted => store.metadataLen + store.bmLen
      | .poolTags => mKvMaxValueRange) ∧
    (store.region info).length * store.sectorSize =
      (match info with
      | .kvstoreMetadata => store.metadataLen
      | .bmInuse | .bmDeleted => store.bmLen
      | .poolTags => store.poolTagsLen) := by
  cases info with
  | kvstoreMetadata => exact ⟨Nat.zero_mul _, metadataLen_sectors⟩
  | bmInuse => exact ⟨metadataLen_sectors, bmLen_sectors⟩
  | bmDeleted =>
    refine ⟨?_, bmLen_sectors⟩
    calc store.delBmLba * store.sectorSize
        = store.inUseBmLba * store.sectorSize +
            store.bmLen / store.sectorSize * store.sectorSize := by
          rw [delBmLba_eq, Nat.add_mul]
      _ = store.metadataLen + store.bmLen := by
          rw [NvmKvStore.inUseBmLba, metadataLen_sectors, bmLen_sectors]
  | poolTags => exact ⟨poolTagsLba_bytes, poolTagsLen_sectors⟩

/-- Sectors covered by a range, in bytes. -/
theorem covers_bytes {range : NvmBlockRange} {lba : Nat} (covered : range.Covers lba) :
    range.startLba * store.sectorSize ≤ lba * store.sectorSize ∧
      lba * store.sectorSize + store.sectorSize ≤
        range.startLba * store.sectorSize + range.length * store.sectorSize := by
  have first := Nat.mul_le_mul_right store.sectorSize covered.1
  have last := Nat.mul_le_mul_right store.sectorSize (Nat.succ_le_of_lt covered.2)
  rw [Nat.succ_mul, Nat.add_mul] at last
  exact ⟨first, last⟩

/-- The regions of two structures have no sector in common. -/
theorem region_apart {one other : StoreInfo} (different : one ≠ other) :
    (store.region one).Apart (store.region other) := by
  intro lba covered shared
  obtain ⟨oneFirst, oneLast⟩ := @covers_bytes store _ _ covered
  obtain ⟨otherFirst, otherLast⟩ := @covers_bytes store _ _ shared
  obtain ⟨oneStart, oneLength⟩ := @region_bytes store one
  obtain ⟨otherStart, otherLength⟩ := @region_bytes store other
  have positive := store.sector_positive
  have metadata := @metadataLen_bounds store
  have bitmap := @bmLen_upper store
  have slot : mKvMaxValueRange = 2097152 := rfl
  rw [oneStart] at oneFirst oneLast
  rw [otherStart] at otherFirst otherLast
  rw [oneLength] at oneLast
  rw [otherLength] at otherLast
  cases one <;> cases other <;> first | exact different rfl | (dsimp only at *; omega)

/-- The regions end where the user data starts, or before. -/
theorem region_before_data (info : StoreInfo) :
    (store.region info).startLba + (store.region info).length ≤ store.dataStartLba := by
  obtain ⟨start, length⟩ := @region_bytes store info
  have reserved := @poolTagsLen_reserved store
  have metadata := @metadataLen_bounds store
  have bitmap := @bmLen_upper store
  have slot : mKvMaxValueRange = 2097152 := rfl
  apply Nat.le_of_mul_le_mul_right _ store.sector_positive
  rw [dataStartLba_bytes, Nat.add_mul, start, length]
  cases info <;> dsimp only <;> omega

end Places

section Vectors

variable {store : NvmKvStore} {memory : PoolMgrMemory} {pool : Nat} {info : StoreInfo}

/-- Shifting a number of bytes by the bits of a sector counts the sectors. -/
theorem shifted_sector (offset : Nat) : offset >>> store.sectBits = offset / store.sectorSize := by
  obtain ⟨bits, _, _, size⟩ := store.capabilities.sector_pow
  rw [NvmKvStore.sectBits, NvmKvStore.sectorSize, size, Nat.log2_two_pow,
    Nat.shiftRight_eq_div_pow]

/-- Tags and words of a bitmap do not cross sectors. -/
theorem sector_sixteen : 16 ∣ store.sectorSize := by
  obtain ⟨bits, lower, _, size⟩ := store.capabilities.sector_pow
  rw [NvmKvStore.sectorSize, size]
  exact Nat.pow_dvd_pow 2 (show 4 ≤ bits by omega)

/-- A record whose size divides its place and the sector lies in one sector. -/
theorem record_in_sector {offset size sector : Nat} (placed : size ∣ offset)
    (divides : size ∣ sector) (positive : 0 < sector) :
    offset / sector * sector ≤ offset ∧
      offset + size ≤ offset / sector * sector + sector := by
  obtain ⟨place, rfl⟩ := placed
  obtain ⟨records, rfl⟩ := divides
  have split := Nat.div_add_mod place records
  have sizePositive : 0 < size := Nat.pos_of_mul_pos_right positive
  have recordsPositive : 0 < records := Nat.pos_of_mul_pos_left positive
  have rest := Nat.mod_lt place recordsPositive
  have sectors : size * place / (size * records) = place / records :=
    Nat.mul_div_mul_left _ _ sizePositive
  have whole : place / records * (size * records) = size * (records * (place / records)) := by
    rw [Nat.mul_comm, Nat.mul_assoc]
  rw [sectors, whole]
  constructor
  · exact Nat.mul_le_mul_left size (by omega)
  · have last : size * (place + 1) ≤ size * (records * (place / records) + records) :=
      Nat.mul_le_mul_left size (by omega)
    rwa [Nat.mul_add, Nat.mul_add, Nat.mul_one] at last

/-- The sector of a record that lies inside the structure is written to its own place. -/
theorem sectorVector_record (placed : (recordOf pool info).2 ∣ (recordOf pool info).1)
    (divides : (recordOf pool info).2 ∣ store.sectorSize)
    (within : (recordOf pool info).1 < (store.region info).length * store.sectorSize) :
    WritesRecord store memory pool info
      (store.sectorVector (memory.structureOf info) (store.region info).startLba
        ((recordOf pool info).1 / store.sectorSize)) := by
  have positive := store.sector_positive
  obtain ⟨starts, ends⟩ := record_in_sector placed divides positive
  have before : (recordOf pool info).1 / store.sectorSize < (store.region info).length :=
    Nat.div_lt_of_lt_mul (by rwa [Nat.mul_comm])
  have one : store.sectorSize / store.sectorSize = 1 := Nat.div_self positive
  generalize (recordOf pool info).1 / store.sectorSize = sector at starts ends before ⊢
  constructor
  · rfl
  · change store.sectorSize / store.sectorSize * store.sectorSize = store.sectorSize
    rw [one, Nat.one_mul]
  · intro lba written
    change (store.region info).startLba + sector ≤ lba ∧
      lba < (store.region info).startLba + sector + store.sectorSize / store.sectorSize at written
    rw [one] at written
    exact ⟨by omega, by omega⟩
  · exact ⟨_, rfl, Nat.add_mul _ _ _⟩
  · change ((store.region info).startLba + sector) * store.sectorSize ≤ _ ∧
      _ ≤ ((store.region info).startLba + sector) * store.sectorSize + store.sectorSize
    rw [Nat.add_mul]
    exact ⟨by omega, by omega⟩

/-- A whole structure is written to its region, with every record in it. -/
theorem wholeVector_record {length : Nat}
    (whole : (store.region info).length * store.sectorSize = length)
    (within : (recordOf pool info).1 + (recordOf pool info).2 ≤
      (store.region info).length * store.sectorSize) :
    WritesRecord store memory pool info
      (NvmKvStore.wholeVector (memory.structureOf info) length (store.region info).startLba) := by
  have sectors : length / store.sectorSize = (store.region info).length := by
    rw [← whole, Nat.mul_div_cancel _ store.sector_positive]
  constructor
  · rfl
  · change length / store.sectorSize * store.sectorSize = length
    rw [sectors, whole]
  · intro lba written
    change (store.region info).startLba ≤ lba ∧
      lba < (store.region info).startLba + length / store.sectorSize at written
    rw [sectors] at written
    exact written
  · refine ⟨0, ?_, rfl⟩
    change memory.structureOf info = _
    simp
  · change (store.region info).startLba * store.sectorSize ≤ _ ∧
      _ ≤ (store.region info).startLba * store.sectorSize + length
    exact ⟨Nat.le_add_right _ _, by omega⟩

/-- The records of the pools are inside their structures. -/
theorem record_within (bounded : pool < store.maxPools) (info : StoreInfo) :
    (recordOf pool info).1 + (recordOf pool info).2 ≤
      (store.region info).length * store.sectorSize := by
  rw [region_bytes info |>.2]
  have inBitmap : pool / 32 * 4 + 4 ≤ store.bmLen := by
    have starts := store.word_inside bounded
    have words : 4 ∣ store.bmLen := by
      rw [← bmLen_sectors]
      exact Nat.dvd_trans (by decide) (Nat.dvd_trans sector_sixteen (Nat.dvd_mul_left _ _))
    omega
  cases info with
  | kvstoreMetadata => exact (Nat.zero_add _).le.trans metadataLen_bounds.1
  | bmInuse => exact inBitmap
  | bmDeleted => exact inBitmap
  | poolTags =>
    have small := @tag_bytes_small store
    have enough := (store.round_upto_sector_bounds (poolTagSize * store.maxPools) (by omega)).1
    refine Nat.le_trans ?_ enough
    change pool * poolTagSize + poolTagSize ≤ poolTagSize * store.maxPools
    rw [← Nat.succ_mul, Nat.mul_comm]
    exact Nat.mul_le_mul_left _ bounded

/-- The vector with which a structure is written for one pool. -/
def poolVector (store : NvmKvStore) (memory : PoolMgrMemory) (pool : Nat) :
    StoreInfo → NvmIovec
  | .kvstoreMetadata =>
      NvmKvStore.wholeVector memory.pStoreMetadata store.metadataLen NvmKvStore.metadataLba
  | .bmInuse =>
      store.sectorVector memory.inUse store.inUseBmLba (bitIndexSector pool store.sectBits)
  | .bmDeleted =>
      store.sectorVector memory.deleted store.delBmLba (bitIndexSector pool store.sectBits)
  | .poolTags =>
      store.sectorVector memory.pPoolTags store.poolTagsLba (store.getPoolTagSect pool)

/-- A write for one pool has the vectors of the structures it is called for. -/
theorem mem_storeInfoVectors {type : List StoreInfo} {vector : NvmIovec} :
    vector ∈ store.storeInfoVectors memory type (some pool) ↔
      ∃ info ∈ type, vector = poolVector store memory pool info := by
  unfold NvmKvStore.storeInfoVectors
  constructor
  · intro member
    simp only [List.mem_append, List.mem_ite_nil_right, List.mem_singleton] at member
    rcases member with ((⟨asked, same⟩ | ⟨asked, same⟩) | ⟨asked, same⟩) | ⟨asked, same⟩
    · exact ⟨.poolTags, asked, same⟩
    · exact ⟨.kvstoreMetadata, asked, same⟩
    · exact ⟨.bmInuse, asked, same⟩
    · exact ⟨.bmDeleted, asked, same⟩
  · rintro ⟨info, asked, rfl⟩
    simp only [List.mem_append, List.mem_ite_nil_right, List.mem_singleton]
    cases info with
    | poolTags => exact Or.inl (Or.inl (Or.inl ⟨asked, rfl⟩))
    | kvstoreMetadata => exact Or.inl (Or.inl (Or.inr ⟨asked, rfl⟩))
    | bmInuse => exact Or.inl (Or.inr ⟨asked, rfl⟩)
    | bmDeleted => exact Or.inr ⟨asked, rfl⟩

/-- The shifts find the sector of the record, so the vector of a pool writes it. -/
theorem poolVector_record (bounded : pool < store.maxPools) (info : StoreInfo) :
    WritesRecord store memory pool info (poolVector store memory pool info) := by
  have within := @record_within store pool bounded info
  have word : bitIndexSector pool store.sectBits = pool / 32 * 4 / store.sectorSize := by
    rw [← NvmKvStore.word_sector, shifted_sector]
  have tag : store.getPoolTagSect pool = pool * poolTagSize / store.sectorSize :=
    shifted_sector _
  have words : 4 ∣ store.sectorSize := Nat.dvd_trans (by decide) sector_sixteen
  have four : 0 < 4 := by decide
  have sixteen : 0 < poolTagSize := by decide
  cases info with
  | kvstoreMetadata =>
    exact @wholeVector_record store memory pool .kvstoreMetadata _ metadataLen_sectors within
  | bmInuse =>
    rw [poolVector, word]
    exact @sectorVector_record store memory pool .bmInuse (Nat.dvd_mul_left _ _) words
      (Nat.lt_of_lt_of_le (Nat.lt_add_of_pos_right four) within)
  | bmDeleted =>
    rw [poolVector, word]
    exact @sectorVector_record store memory pool .bmDeleted (Nat.dvd_mul_left _ _) words
      (Nat.lt_of_lt_of_le (Nat.lt_add_of_pos_right four) within)
  | poolTags =>
    rw [poolVector, tag]
    exact @sectorVector_record store memory pool .poolTags (Nat.dvd_mul_left _ _) sector_sixteen
      (Nat.lt_of_lt_of_le (Nat.lt_add_of_pos_right sixteen) within)

/-- A write for all pools takes whole structures, with the records of every pool. -/
theorem storeInfoVectors_whole {type : List StoreInfo} {vector : NvmIovec}
    (member : vector ∈ store.storeInfoVectors memory type none) :
    ∃ info ∈ type, ∀ pool < store.maxPools, WritesRecord store memory pool info vector := by
  unfold NvmKvStore.storeInfoVectors at member
  simp only [List.mem_append, List.mem_ite_nil_right, List.mem_singleton, List.not_mem_nil,
    and_false, false_or] at member
  rcases member with (⟨asked, rfl⟩ | ⟨asked, rfl⟩) | ⟨asked, rfl⟩
  · refine ⟨.kvstoreMetadata, asked, fun pool bounded => ?_⟩
    exact @wholeVector_record store memory pool .kvstoreMetadata _ metadataLen_sectors
      (record_within bounded _)
  · refine ⟨.bmInuse, asked, fun pool bounded => ?_⟩
    exact @wholeVector_record store memory pool .bmInuse _ bmLen_sectors (record_within bounded _)
  · refine ⟨.bmDeleted, asked, fun pool bounded => ?_⟩
    exact @wholeVector_record store memory pool .bmDeleted _ bmLen_sectors
      (record_within bounded _)

end Vectors

/-- The metadata, the bitmaps and the tags have regions without a common sector, all before
the user data. A write for a pool is one atomic batch: for each structure it is called for,
one vector, which stays in the region of the structure and carries the record of the pool,
and nothing else. What is written for all pools at once carries the records of all pools. -/
theorem metadata_regions_apart (store : NvmKvStore) (memory : PoolMgrMemory) :
    (∀ one other, one ≠ other → (store.region one).Apart (store.region other)) ∧
    (∀ info, (store.region info).startLba + (store.region info).length ≤ store.dataStartLba) ∧
    (∀ pool < store.maxPools, ∀ maxTotalSize type,
      (store.persistStoreInfoWrites memory maxTotalSize type (some pool)).run takeBatches [] =
        some (.ok (), [store.storeInfoVectors memory type (some pool)]) ∧
      (∀ info ∈ type, ∃ vector ∈ store.storeInfoVectors memory type (some pool),
        WritesRecord store memory pool info vector) ∧
      ∀ vector ∈ store.storeInfoVectors memory type (some pool),
        ∃ info ∈ type, WritesRecord store memory pool info vector) ∧
    ∀ type, ∀ vector ∈ store.storeInfoVectors memory type none,
      ∃ info ∈ type, ∀ pool < store.maxPools, WritesRecord store memory pool info vector := by
  refine ⟨fun one other different => region_apart different, region_before_data, ?_,
    fun type vector member => storeInfoVectors_whole member⟩
  intro pool bounded maxTotalSize type
  refine ⟨?_, ?_, ?_⟩
  · have single : ¬(.poolTags ∈ type ∧ some pool = none) :=
      fun all => Option.some_ne_none pool all.2
    unfold NvmKvStore.persistStoreInfoWrites
    rw [if_neg single]
    rfl
  · intro info asked
    exact ⟨_, mem_storeInfoVectors.mpr ⟨info, asked, rfl⟩, poolVector_record bounded info⟩
  · intro vector member
    obtain ⟨info, asked, rfl⟩ := mem_storeInfoVectors.mp member
    exact ⟨info, asked, poolVector_record bounded info⟩

end Nvmkv
