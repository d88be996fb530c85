import Nvmkv.StoreOpening

/-!
# The layout of a store that is opened again

A store that exists is opened with its own metadata and with the caller's number of
pools. The pool manager hashes pool ids as before. The first data sector, the hash of a
key and what an iterator compares come from the argument, and they are as before just
when the argument carves out the same slots and is on the same side of the pool offsets
in a slot (`reopened_layout_iff`).
-/

namespace Nvmkv

/-- Two sets of objects lay a store out alike: the data start, the address of every key
of every pool, and what an iterator stops at. -/
structure SameLayout (first later : StoreObjects) : Prop where
  dataStartLba : later.dataStartLba = first.dataStartLba
  probeLba : ∀ poolId key i, later.probeLba poolId key i = first.probeLba poolId key i
  iterMatches : ∀ poolId keyLoc foundPoolId,
    later.iterMatches poolId keyLoc foundPoolId = first.iterMatches poolId keyLoc foundPoolId

section Objects

variable {capabilities : NvmKvStoreCapabilities} {sparseAddrBits : Nat}
  {first later : OpenArguments} {created metadata : NvmKvStoreMetadata}

/-- A slot is a whole number of sectors, so that the data start tells the slots carved
out. -/
theorem dataStartLba_slots (capabilities : NvmKvStoreCapabilities) (slots : Nat) :
    slots * mKvMaxValueRange / capabilities.nvmSectorSize =
      slots * (mKvMaxValueRange / capabilities.nvmSectorSize) ∧
    0 < mKvMaxValueRange / capabilities.nvmSectorSize := by
  obtain ⟨bits, lower, upper, size⟩ := capabilities.sector_pow
  have range : mKvMaxValueRange = 2 ^ 21 := rfl
  have whole : 2 ^ bits ∣ 2 ^ 21 := Nat.pow_dvd_pow 2 (by omega)
  rw [size, range]
  refine ⟨Nat.mul_div_assoc _ whole, Nat.div_pos (Nat.le_of_dvd (by norm_num) whole) ?_⟩
  exact Nat.two_pow_pos bits

/-- The same metadata and the same slots make the same addresses. -/
theorem opened_addresses (slots : openSliceAddr capabilities.nvmSectorSize later.maxPools =
      openSliceAddr capabilities.nvmSectorSize first.maxPools)
    (pools : metadata.maxPools = created.maxPools) (poolId : UInt32) :
    (StoreObjects.opened capabilities sparseAddrBits later metadata).getPoolidHash poolId =
        (StoreObjects.opened capabilities sparseAddrBits first created).getPoolidHash poolId ∧
      ∀ key i,
        (StoreObjects.opened capabilities sparseAddrBits later metadata).probeLba poolId key i =
        (StoreObjects.opened capabilities sparseAddrBits first created).probeLba poolId key i := by
  have offset :
      (StoreObjects.opened capabilities sparseAddrBits later metadata).getPoolidHash poolId =
        (StoreObjects.opened capabilities sparseAddrBits first created).getPoolidHash poolId := by
    simp only [StoreObjects.getPoolidHash, StoreObjects.opened, slots, pools]
    rfl
  refine ⟨offset, fun key i => ?_⟩
  rw [StoreObjects.probeLba, StoreObjects.probeLba, offset]
  simp only [StoreObjects.opened, slots]
  rfl

end Objects

/-- Whether pool ids are read from the headers, for a number of pools. -/
def headersChecked (capabilities : NvmKvStoreCapabilities) (maxPools : UInt32) : Prop :=
  2 ^ (layoutValueBits capabilities.nvmSectorSize - 1) < maxPools.toNat

/-- Whether headers are checked can be computed. -/
instance (capabilities : NvmKvStoreCapabilities) (maxPools : UInt32) :
    Decidable (headersChecked capabilities maxPools) := inferInstanceAs (Decidable (_ < _))

/-- A store that was created and is opened again, by a call that succeeds, keeps its layout just
when the number of pools in the argument carves out as many slots as the one in the metadata and
exceeds the pool offsets of a slot just when that one does. An iterator over all pools stops at a
pair of pool 0 unless headers are checked. -/
theorem reopened_layout_iff (capabilities : NvmKvStoreCapabilities) (sparseAddrBits : Nat)
    (first later : OpenArguments) (created stored metadata : NvmKvStoreMetadata)
    (new : openMetadata first none = .ok created) (kept : KeptMetadata created stored)
    (again : openMetadata later (some stored) = .ok metadata) :
    SameLayout (StoreObjects.opened capabilities sparseAddrBits first created)
        (StoreObjects.opened capabilities sparseAddrBits later metadata) ↔
      openSliceAddr capabilities.nvmSectorSize later.maxPools =
          openSliceAddr capabilities.nvmSectorSize stored.maxPools ∧
        (headersChecked capabilities later.maxPools ↔
          headersChecked capabilities stored.maxPools) := by
  have number : stored.maxPools = first.maxPools := by
    rw [kept.maxPools, (openMetadata_new new).1]
    rfl
  rw [number]
  have pools : metadata.maxPools = created.maxPools := by
    rw [openMetadata_stored again, kept.maxPools]
  constructor
  · rintro ⟨start, -, stops⟩
    constructor
    · obtain ⟨_, sectors⟩ := dataStartLba_slots capabilities 0
      have starts : openSliceAddr capabilities.nvmSectorSize later.maxPools * mKvMaxValueRange /
            capabilities.nvmSectorSize =
          openSliceAddr capabilities.nvmSectorSize first.maxPools * mKvMaxValueRange /
            capabilities.nvmSectorSize := start
      rw [(dataStartLba_slots capabilities _).1, (dataStartLba_slots capabilities _).1] at starts
      exact Nat.eq_of_mul_eq_mul_right sectors starts
    · have stop := stops poolIdAll 0 0
      have different : (0 : UInt32) ≠ poolIdAll := by decide
      rw [Bool.eq_iff_iff] at stop
      simp only [StoreObjects.iterMatches_iff, different, or_true, true_and, or_false] at stop
      simp only [StoreObjects.opened] at stop
      unfold headersChecked
      omega
  · rintro ⟨slots, checked⟩
    refine ⟨?_, fun poolId => (opened_addresses slots pools poolId).2, ?_⟩
    · simp only [StoreObjects.opened, slots]
    · intro poolId keyLoc foundPoolId
      have few : later.maxPools.toNat ≤ 2 ^ (layoutValueBits capabilities.nvmSectorSize - 1) ↔
          first.maxPools.toNat ≤ 2 ^ (layoutValueBits capabilities.nvmSectorSize - 1) := by
        rw [← Nat.not_lt, ← Nat.not_lt]
        exact not_congr checked
      rw [Bool.eq_iff_iff, StoreObjects.iterMatches_iff, StoreObjects.iterMatches_iff,
        (opened_addresses slots pools poolId).1]
      exact and_congr Iff.rfl (or_congr few Iff.rfl)

/-- The arguments of an opening with some number of pools. -/
def openedWith (maxPools : UInt32) : OpenArguments := ⟨3, 0, maxPools, 0⟩

/-- A store created for 2048 pools on sectors of 512 bytes iterates over one of two pools
with the same offset differently when it is opened for 4096 pools. -/
theorem reopened_for_more_pools :
    ¬∀ (capabilities : NvmKvStoreCapabilities) (sparseAddrBits : Nat) (first later : OpenArguments)
      (created stored metadata : NvmKvStoreMetadata), openMetadata first none = .ok created →
      KeptMetadata created stored → openMetadata later (some stored) = .ok metadata →
      SameLayout (StoreObjects.opened capabilities sparseAddrBits first created)
        (StoreObjects.opened capabilities sparseAddrBits later metadata) := by
  intro same
  have layout := same NvmKvStore.terabyteStore.capabilities 31 (openedWith 2048) (openedWith 4096)
    (openedWith 2048).newMetadata (openedWith 2048).newMetadata (openedWith 2048).newMetadata rfl
    .created rfl
  have stops := layout.iterMatches poolIdAll 0 0
  exact absurd stops (by decide)

/-- A store created for one pool and opened for two thousand keeps its layout. -/
theorem reopened_in_slot : SameLayout
    (StoreObjects.opened NvmKvStore.terabyteStore.capabilities 31 (openedWith 1)
      (openedWith 1).newMetadata)
    (StoreObjects.opened NvmKvStore.terabyteStore.capabilities 31 (openedWith 2000)
      (openedWith 1).newMetadata) :=
  (reopened_layout_iff NvmKvStore.terabyteStore.capabilities 31 (openedWith 1) (openedWith 2000)
    (openedWith 1).newMetadata (openedWith 1).newMetadata (openedWith 1).newMetadata rfl .created
    rfl).mpr (by decide)

end Nvmkv
