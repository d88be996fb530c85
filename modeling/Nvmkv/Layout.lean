import Nvmkv.HashFunc

/-!
# Store layout and probe addresses

What `NVM_KV_Store::initialize` fixes when a store is opened: the bits of an
address that number the sectors of a slot (`valueBits`), the bits that number
the slots (`keyBits`), the slots reserved for metadata and the hash function
over them. The parameters are kept in one record together with the ranges that
opening the store enforces.

A key of a pool is looked for at eight addresses. The first is its aligned hash
and the others come from collision resolution; the pool's hash is or-ed into
each of them. `probes` lists them in the order in which every operation of the
store visits them.
-/

namespace Nvmkv

/-- The range of addresses kept free for one key, in bytes. -/
def mKvMaxValueRange : Nat := 2097152

/-- The size of a pool tag (`sizeof(nvm_kv_pool_tag_t)`). -/
def poolTagSize : Nat := 16

/-- The address bits of the sectors of one slot: `m_valueBits` counts how often
the number of sectors can be halved. -/
def layoutValueBits (sectorSize : Nat) : Nat := Nat.log2 (mKvMaxValueRange / sectorSize)

/-- An open store: the parameters it was opened with. -/
structure NvmKvStore where
  capabilities : NvmKvStoreCapabilities
  sparseAddrBits : Nat
  maxPools : Nat
  expiryMode : NvmKvExpiry
  globalExpiry : Nat
  cacheSize : Nat
  keyBitsPositive : layoutValueBits capabilities.nvmSectorSize < sparseAddrBits
  addressesFit : sparseAddrBits < 64
  poolsPositive : 0 < maxPools
  poolsBounded : maxPools ≤ nvmKvMaxPools

namespace NvmKvStore

variable (store : NvmKvStore)

/-- The bytes of a sector. -/
def sectorSize : Nat := store.capabilities.nvmSectorSize

/-- The bits of an address within a slot. -/
def valueBits : Nat := layoutValueBits store.sectorSize

/-- The bits of the number of a slot. -/
def keyBits : Nat := store.sparseAddrBits - store.valueBits

/-- The bits of an address that tell the pool: a slot has twice as many sectors. -/
def poolBits : Nat := store.valueBits - 1

/-- Sectors searched for data at an address (`get_max_search_range`). -/
def maxSearchRange : Nat := mKvMaxValueRange / store.sectorSize

/-- Sectors trimmed by a delete (`m_deleteSectorCount`). -/
def delSecCount : Nat := mKvMaxValueRange / store.sectorSize

/-- The sectors of the whole store (`get_kv_len`). -/
def kvLen : Nat := 2 ^ store.sparseAddrBits

/-- Slots carved out for metadata. -/
def sliceAddr : Nat :=
  let poolTags := nvmKvRoundUptoBlk (poolTagSize * store.maxPools) store.sectorSize
  let poolTags := nvmKvRoundUptoBlk poolTags mKvMaxValueRange
  poolTags / mKvMaxValueRange + 1

/-- The first sector of user data (`set_md_rec` of the slice address). -/
def dataStartLba : Nat := store.sliceAddr * mKvMaxValueRange / store.sectorSize

/-- The hash function over the addresses of the store, which leaves room for the metadata. -/
def hashFunc : NvmKvHashFunc := ⟨store.sparseAddrBits, store.sliceAddr⟩

/-- Whether pool ids are hashed because there may be more of them than a slot
has pool offsets. -/
def poolsHashed : Prop := 2 ^ store.poolBits < store.maxPools

/-- Whether ids are hashed can be computed. -/
instance : Decidable store.poolsHashed := inferInstanceAs (Decidable (_ < _))

/-- The offset of a pool within a slot (`get_poolid_hash`). -/
def poolIdHash (poolId : UInt32) : Nat :=
  if store.poolsHashed then
    store.hashFunc.keyHash (poolIdBytes poolId) 0 store.poolBits false
  else
    poolId.toNat

/-- The address tried after `i` collisions. -/
def probeLba (poolId : UInt32) (key : List UInt8) (i : Nat) : Nat :=
  let keyHashValInit := store.hashFunc.keyHash key poolId store.keyBits true
  let keyHashVal :=
    if i = 0 then keyHashValInit
    else store.hashFunc.resolveColl key keyHashValInit i store.keyBits true
  keyHashVal ||| store.poolIdHash poolId

/-- The addresses tried for a key, in this order. -/
def probes (poolId : UInt32) (key : List UInt8) : List Nat :=
  (List.range maxCollision).map (store.probeLba poolId key)

/-- The slot that the folded hash of a key selects. -/
def keySlot (poolId : UInt32) (key : List UInt8) : Nat :=
  store.hashFunc.keyHash key poolId store.keyBits false

variable {store}

/-- A supported sector size halves the range of a slot nine to twelve times. -/
theorem sector_value_bits : store.sectorSize * 2 ^ store.valueBits = mKvMaxValueRange ∧
    9 ≤ store.valueBits ∧ store.valueBits ≤ 12 := by
  have supported := store.capabilities.sectorSupported
  simp only [List.mem_cons, List.not_mem_nil, or_false] at supported
  unfold valueBits sectorSize layoutValueBits mKvMaxValueRange
  rcases supported with size | size | size | size <;> rw [size] <;> decide

/-- A sector has bytes. -/
theorem sector_positive : 0 < store.sectorSize := store.capabilities.sector_positive

/-- It has at most 4096 of them. -/
theorem sector_upper : store.sectorSize ≤ 2 ^ 12 := store.capabilities.sector_upper

/-- A search goes over the sectors of one slot. -/
theorem maxSearchRange_eq : store.maxSearchRange = 2 ^ store.valueBits := by
  obtain ⟨product, _, _⟩ := store.sector_value_bits
  unfold maxSearchRange
  rw [← product]
  exact Nat.mul_div_cancel_left _ sector_positive

/-- A delete trims the sectors of one slot. -/
theorem delSecCount_eq : store.delSecCount = 2 ^ store.valueBits := maxSearchRange_eq

/-- An address has bits besides those within its slot. -/
theorem valueBits_lt : store.valueBits < store.sparseAddrBits := store.keyBitsPositive

/-- So there is more than one slot. -/
theorem keyBits_positive : 0 < store.keyBits := Nat.sub_pos_of_lt valueBits_lt

/-- The bits of the slot and those within it make up an address. -/
theorem keyBits_add_valueBits : store.keyBits + store.valueBits = store.sparseAddrBits :=
  Nat.sub_add_cancel (Nat.le_of_lt valueBits_lt)

/-- The address space is made of whole slots. -/
theorem kvLen_eq : store.kvLen = 2 ^ store.keyBits * 2 ^ store.valueBits := by
  rw [← Nat.pow_add, keyBits_add_valueBits, kvLen]

/-- Data starts at the beginning of the slot after the metadata. -/
theorem dataStartLba_eq : store.dataStartLba = store.sliceAddr * 2 ^ store.valueBits := by
  obtain ⟨product, _, _⟩ := store.sector_value_bits
  unfold dataStartLba
  rw [← product, ← Nat.mul_assoc, Nat.mul_right_comm]
  exact Nat.mul_div_cancel _ sector_positive

/-- Rounding up gives a length that is not smaller and at most one sector larger. -/
theorem round_upto_sector_bounds (length : Nat) (bounded : length < 2 ^ 63) :
    length ≤ nvmKvRoundUptoBlk length store.sectorSize ∧
      nvmKvRoundUptoBlk length store.sectorSize < length + store.sectorSize := by
  have positive := store.sector_positive
  have rounded := store.capabilities.round_upto_sector length bounded
  have split := Nat.div_add_mod (length + (store.sectorSize - 1)) store.sectorSize
  have rest := Nat.mod_lt (length + (store.sectorSize - 1)) positive
  change nvmKvRoundUptoBlk length store.sectorSize =
    (length + (store.sectorSize - 1)) / store.sectorSize * store.sectorSize at rounded
  rw [rounded, Nat.mul_comm]
  constructor <;> omega

/-- The tags of up to `2 ^ 20` pools take one to eight slots, rounded up, and one
slot more holds the store's own records. -/
theorem sliceAddr_bounds : 2 ≤ store.sliceAddr ∧ store.sliceAddr ≤ 9 := by
  have positive := store.poolsPositive
  have bounded : store.maxPools ≤ 1048576 := store.poolsBounded
  have sector := store.sector_upper
  obtain ⟨lower, upper⟩ := store.round_upto_sector_bounds (poolTagSize * store.maxPools)
    (by unfold poolTagSize; omega)
  have multiple : nvmKvRoundUptoBlk (poolTagSize * store.maxPools) store.sectorSize ≤ 2 ^ 24 := by
    have rounded := store.capabilities.round_upto_sector (poolTagSize * store.maxPools)
      (by unfold poolTagSize; omega)
    have supported := store.capabilities.sectorSupported
    simp only [List.mem_cons, List.not_mem_nil, or_false] at supported
    unfold sectorSize poolTagSize at *
    rcases supported with size | size | size | size <;> rw [rounded, size] <;> omega
  unfold sliceAddr
  simp only
  generalize nvmKvRoundUptoBlk (poolTagSize * store.maxPools) store.sectorSize = tags at *
  have slots : nvmKvRoundUptoBlk tags mKvMaxValueRange =
      (tags + (2 ^ 21 - 1)) / 2 ^ 21 * 2 ^ 21 :=
    round_upto_pow tags 21 (by norm_num) (by omega)
  rw [slots]
  unfold mKvMaxValueRange
  unfold poolTagSize at lower
  constructor <;> omega

end NvmKvStore

end Nvmkv
