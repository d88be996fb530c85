import Nvmkv.PoolManager
import Nvmkv.ProbeAddresses

/-!
# Opening a store

`NVM_KV_Store::initialize` finds the metadata of a store in its first block or writes
them there. What a store is opened with then goes into several objects. The layout, the
hash function and the iterator take the number of pools from the argument of the call;
the pool manager takes it from the metadata. The number in the argument is checked only
when a store is created.

The slots carved out for metadata are computed in 32 bits. For the numbers of pools that
creation accepts nothing wraps (`openSliceAddr_eq`), but a later argument may be any
32-bit number.
-/

namespace Nvmkv

/-- The metadata of a store (`nvm_kv_store_metadata_t`). -/
structure NvmKvStoreMetadata where
  kvStoreId : Nat
  kvStoreStamp : Nat
  version : UInt32
  maxPools : UInt32
  maxKeySize : Nat
  maxValueSize : Nat
  totalNoPools : UInt32
  kvRevision : Nat
  expiryMode : UInt32
  globalExpiry : UInt32

/-- The arguments of `kv_open` that reach the metadata; the id is the descriptor of the
device. -/
structure OpenArguments where
  kvId : Nat
  version : UInt32
  maxPools : UInt32
  expiry : UInt32

/-- The stamp by which a store is recognized (`M_KV_STAMP`). -/
def mKvStamp : Nat := 858623104131

/-- The internal revision of a store (`M_KV_REVISION`). -/
def mKvRevision : Nat := 1

/-- The least number of pools. -/
def nvmKvMinPools : Nat := 1

/-- The last expiry mode (`KV_GLOBAL_EXPIRY`). -/
def kvGlobalExpiry : UInt32 := 2

/-- The metadata of a new store. -/
def OpenArguments.newMetadata (args : OpenArguments) : NvmKvStoreMetadata where
  kvStoreId := args.kvId
  kvStoreStamp := mKvStamp
  version := args.version
  maxPools := args.maxPools
  maxKeySize := nvmKvMaxKeySize
  maxValueSize := nvmKvMaxValueSize
  totalNoPools := UInt32.ofNat nvmKvMinPools
  kvRevision := mKvRevision
  expiryMode := args.expiry
  globalExpiry := 0

/-- The metadata with which `initialize` goes on: those of a new store when the metadata
block does not exist, and otherwise those found there. -/
def openMetadata (args : OpenArguments) (stored : Option NvmKvStoreMetadata) :
    Except NvmErrorCode NvmKvStoreMetadata :=
  match stored with
  | none =>
      if nvmKvMaxPools < args.maxPools.toNat then
        .error .invalidInput
      else if args.maxPools.toNat < nvmKvMinPools then
        .error .invalidInput
      else if kvGlobalExpiry < args.expiry then
        .error .invalidInput
      else
        .ok args.newMetadata
  | some metadata =>
      if metadata.version ≠ args.version ∨ metadata.kvStoreStamp ≠ mKvStamp then
        .error .invalidInput
      else
        .ok metadata

/-- A new store has a supported number of pools. -/
theorem openMetadata_new {args : OpenArguments} {metadata : NvmKvStoreMetadata}
    (opened : openMetadata args none = .ok metadata) :
    metadata = args.newMetadata ∧ 0 < args.maxPools.toNat ∧
      args.maxPools.toNat ≤ nvmKvMaxPools := by
  have minimum : nvmKvMinPools = 1 := rfl
  simp only [openMetadata] at opened
  split_ifs at opened with many few
  cases opened
  exact ⟨rfl, by omega, by omega⟩

/-- A store found on the device is opened with its own metadata. -/
theorem openMetadata_stored {args : OpenArguments} {stored metadata : NvmKvStoreMetadata}
    (opened : openMetadata args (some stored) = .ok metadata) : metadata = stored := by
  simp only [openMetadata] at opened
  split_ifs at opened
  cases opened
  rfl

/-- Metadata change in the number of pools and in the global expiry only, however often
the store is opened in between. -/
inductive KeptMetadata (created : NvmKvStoreMetadata) : NvmKvStoreMetadata → Prop where
  | created : KeptMetadata created created
  | pools {stored : NvmKvStoreMetadata} (kept : KeptMetadata created stored)
      (totalNoPools : UInt32) : KeptMetadata created { stored with totalNoPools := totalNoPools }
  | expiry {stored : NvmKvStoreMetadata} (kept : KeptMetadata created stored)
      (globalExpiry : UInt32) : KeptMetadata created { stored with globalExpiry := globalExpiry }

/-- Metadata that are kept have the number of pools that the store was created with. -/
theorem KeptMetadata.maxPools {created stored : NvmKvStoreMetadata}
    (kept : KeptMetadata created stored) : stored.maxPools = created.maxPools := by
  induction kept with
  | created => rfl
  | pools _ _ inductionHypothesis => exact inductionHypothesis
  | expiry _ _ inductionHypothesis => exact inductionHypothesis

/-- The slots carved out for metadata, as `initialize` computes them from its argument:
`pool_tag_size` and the result have 32 bits. -/
def openSliceAddr (sectorSize : Nat) (maxPools : UInt32) : Nat :=
  let size := poolTagSize * maxPools.toNat % 2 ^ 32
  let size := nvmKvRoundUptoBlk size sectorSize % 2 ^ 32
  let size := nvmKvRoundUptoBlk size mKvMaxValueRange % 2 ^ 32
  (size / mKvMaxValueRange + 1) % 2 ^ 32

/-- What `initialize` keeps of the layout in its objects. -/
structure StoreObjects where
  capabilities : NvmKvStoreCapabilities
  sparseAddrBits : Nat
  mdRecs : Nat
  dataStartLba : Nat
  hashFunc : NvmKvHashFunc
  metadata : NvmKvStoreMetadata
  iterPoolBits : Nat
  iterMaxPools : UInt32

namespace StoreObjects

/-- The objects of a store that is opened with its metadata. -/
def opened (capabilities : NvmKvStoreCapabilities) (sparseAddrBits : Nat) (args : OpenArguments)
    (metadata : NvmKvStoreMetadata) : StoreObjects :=
  let sliceAddr := openSliceAddr capabilities.nvmSectorSize args.maxPools
  { capabilities := capabilities
    sparseAddrBits := sparseAddrBits
    mdRecs := sliceAddr
    dataStartLba := sliceAddr * mKvMaxValueRange / capabilities.nvmSectorSize
    hashFunc := ⟨sparseAddrBits, sliceAddr⟩
    metadata := metadata
    iterPoolBits := layoutValueBits capabilities.nvmSectorSize - 1
    iterMaxPools := args.maxPools }

variable (objects : StoreObjects)

/-- The bits of an address within a slot. -/
def valBits : Nat := layoutValueBits objects.capabilities.nvmSectorSize

/-- The bits of the number of a slot. -/
def keyBits : Nat := objects.sparseAddrBits - objects.valBits

/-- The offset of a pool within a slot (`NVM_KV_Pool_Mgr::get_poolid_hash`). -/
def getPoolidHash (poolId : UInt32) : Nat :=
  let poolBits := objects.valBits - 1
  if 2 ^ poolBits < objects.metadata.maxPools.toNat then
    objects.hashFunc.keyHash (poolIdBytes poolId) 0 poolBits false
  else
    poolId.toNat

/-- The address tried for a key of a pool after `i` collisions. -/
def probeLba (poolId : UInt32) (key : List UInt8) (i : Nat) : Nat :=
  let keyHashValInit := objects.hashFunc.keyHash key poolId objects.keyBits true
  let keyHashVal :=
    if i = 0 then keyHashValInit
    else objects.hashFunc.resolveColl key keyHashValInit i objects.keyBits true
  keyHashVal ||| objects.getPoolidHash poolId

/-- Whether an iterator over a pool stops at an address whose header has a pool id
(`NVM_KV_Iterator::iter_over_pool`). The header counts only when pool ids may be hashed. -/
def iterMatches (poolId : UInt32) (keyLoc : Nat) (foundPoolId : UInt32) : Bool :=
  let poolMask := 2 ^ objects.iterPoolBits - 1
  (objects.getPoolidHash poolId = keyLoc &&& poolMask || poolId = poolIdAll) &&
    (objects.iterMaxPools.toNat ≤ 2 ^ objects.iterPoolBits || foundPoolId = poolId)

variable {objects}

/-- An iterator takes a pair when its address tells the pool, or all pools are asked for, and the
header tells it, too, where headers are checked. -/
theorem iterMatches_iff {poolId foundPoolId : UInt32} {keyLoc : Nat} :
    objects.iterMatches poolId keyLoc foundPoolId = true ↔
      (objects.getPoolidHash poolId = keyLoc &&& (2 ^ objects.iterPoolBits - 1) ∨
        poolId = poolIdAll) ∧
      (objects.iterMaxPools.toNat ≤ 2 ^ objects.iterPoolBits ∨ foundPoolId = poolId) := by
  simp only [iterMatches, Bool.and_eq_true, Bool.or_eq_true, decide_eq_true_eq]

end StoreObjects

/-- For the numbers of pools of a store nothing wraps. -/
theorem openSliceAddr_eq (store : NvmKvStore) :
    openSliceAddr store.sectorSize (UInt32.ofNat store.maxPools) = store.sliceAddr := by
  have bounded : store.maxPools ≤ 1048576 := store.poolsBounded
  have pools : (UInt32.ofNat store.maxPools).toNat = store.maxPools := by
    rw [UInt32.toNat_ofNat']
    exact Nat.mod_eq_of_lt (by omega)
  have sector : store.sectorSize ≤ 2 ^ 12 := by
    obtain ⟨bits, _, upper, size⟩ := store.capabilities.sector_pow
    rw [NvmKvStore.sectorSize, size]
    exact Nat.pow_le_pow_right (by norm_num) upper
  have tags : poolTagSize * store.maxPools ≤ 2 ^ 24 := by
    unfold poolTagSize
    omega
  obtain ⟨_, upper⟩ := store.round_upto_sector_bounds (poolTagSize * store.maxPools) (by omega)
  have slots : nvmKvRoundUptoBlk (nvmKvRoundUptoBlk (poolTagSize * store.maxPools) store.sectorSize)
      mKvMaxValueRange < 2 ^ 32 := by
    have rounded := round_upto_pow
      (nvmKvRoundUptoBlk (poolTagSize * store.maxPools) store.sectorSize) 21 (by norm_num)
      (by omega)
    have range : mKvMaxValueRange = 2 ^ 21 := rfl
    rw [range, rounded]
    omega
  unfold openSliceAddr NvmKvStore.sliceAddr
  simp only [pools]
  rw [Nat.mod_eq_of_lt (a := poolTagSize * store.maxPools) (by omega),
    Nat.mod_eq_of_lt (a := nvmKvRoundUptoBlk (poolTagSize * store.maxPools) _) (by omega),
    Nat.mod_eq_of_lt slots, Nat.mod_eq_of_lt]
  have range : mKvMaxValueRange = 2 ^ 21 := rfl
  rw [range] at slots ⊢
  omega

/-- The objects of a store opened with its own number of pools have its layout. -/
theorem StoreObjects.opened_probeLba (store : NvmKvStore) {args : OpenArguments}
    {metadata : NvmKvStoreMetadata} (pools : args.maxPools = UInt32.ofNat store.maxPools)
    (same : metadata.maxPools = args.maxPools) (poolId : UInt32) (key : List UInt8) (i : Nat) :
    (opened store.capabilities store.sparseAddrBits args metadata).probeLba poolId key i =
      store.probeLba poolId key i := by
  have bounded : store.maxPools ≤ 1048576 := store.poolsBounded
  have number : metadata.maxPools.toNat = store.maxPools := by
    rw [same, pools, UInt32.toNat_ofNat']
    exact Nat.mod_eq_of_lt (by omega)
  have slice : openSliceAddr store.capabilities.nvmSectorSize args.maxPools = store.sliceAddr := by
    rw [pools]
    exact openSliceAddr_eq store
  have offset :
      (opened store.capabilities store.sparseAddrBits args metadata).getPoolidHash poolId =
        store.poolIdHash poolId := by
    simp only [getPoolidHash, opened, slice, number, NvmKvStore.poolIdHash]
    rfl
  rw [probeLba, offset]
  simp only [opened, slice]
  rfl

end Nvmkv
