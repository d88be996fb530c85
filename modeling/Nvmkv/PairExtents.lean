import Nvmkv.ProbeAddresses
import Nvmkv.WriteVectors

/-!
# The sectors of a pair

The layout of a pair announces how many bytes are written for it. Together with
the header sector, which is counted separately when the value is written from the
caller's buffer, they are the extent of the pair. It is one sector when header,
key and value fit into one, and else the header's sector and those of the value,
whatever the alignment of the buffer is.

The longest value takes half of the sectors of a slot when its length exceeds one
MiB less a sector. A pool's offset lies in the lower half of a slot, so that even
then the pair ends with its slot. The address bits of a store are counted on the
size of its device and the slots they number fit onto it.
-/

namespace Nvmkv

/-- The sectors announced by a layout: those of the vectors' bytes, and the header's
when it has a vector of its own. -/
def WriteLayout.sectors (capabilities : NvmKvStoreCapabilities) (layout : WriteLayout) : Nat :=
  (if layout.userBufferUsage then 1 else 0) + layout.iovLen / capabilities.nvmSectorSize

/-- The sectors of a pair in the layout that `kv_alloc_for_write` chooses. -/
def pairSectors (capabilities : NvmKvStoreCapabilities) (keyLen : Nat) (value : Memory)
    (valueLen : Nat) : Nat :=
  (writeLayout capabilities keyLen value valueLen).sectors capabilities

/-- How often a number can be shifted before nothing is left of it, in at most `fuel`
shifts. -/
def shiftCount : (fuel : Nat) → Nat → Nat
  | 0, _ => 0
  | fuel + 1, n => if n = 0 then 0 else shiftCount fuel (n >>> 1) + 1

/-- The number of sparse address bits for a device or a file (`comp_sparse_addr_bits`).
The size is a 64-bit number and the sector size one of 32 bits. -/
def compSparseAddrBits (size sectorSize : Nat) : Int :=
  (shiftCount 64 size : Int) - shiftCount 32 sectorSize

/-- The longest value by the layout's own account (`m_maxValueSize`), which nothing
compares a value with. -/
def NvmKvStore.maxValueSize (store : NvmKvStore) : Nat := mKvMaxValueRange / 2 - store.sectorSize

section Extents

variable {capabilities : NvmKvStoreCapabilities}

/-- Header, key and value share a sector or the value has its own sectors. -/
theorem pairSectors_eq {keyLen valueLen : Nat} (value : Memory) (short : keyLen ≤ nvmKvMaxKeySize)
    (positive : 0 < valueLen) (bounded : valueLen ≤ nvmKvMaxValueSize) :
    pairSectors capabilities keyLen value valueLen =
      if fitsSector capabilities keyLen valueLen then 1
      else 1 + valueSectors capabilities valueLen := by
  have sector := capabilities.sector_positive
  have upper := capabilities.sector_upper
  have keys : nvmKvMaxKeySize = 128 := rfl
  have values : nvmKvMaxValueSize = 1047552 := rfl
  have header : mKvHeaderSize = 40 := rfl
  have rounded : ∀ length, length < 2 ^ 63 → roundedLen capabilities length /
      capabilities.nvmSectorSize = valueSectors capabilities length := by
    intro length few
    rw [roundedLen_eq length few, Nat.mul_div_cancel _ sector]
  unfold pairSectors
  split
  · rename_i fits
    have one : valueSectors capabilities (mKvHeaderSize + keyLen + valueLen) = 1 := by
      unfold fitsSector at fits
      unfold valueSectors
      apply Nat.div_eq_of_lt_le <;> omega
    rw [writeLayout_fits value fits, WriteLayout.sectors]
    simp only [Bool.false_eq_true, if_false, Nat.zero_add]
    rw [rounded _ (by omega), one]
  · rename_i long
    by_cases aligned : value.address % capabilities.nvmSectorSize = 0
    · rw [writeLayout_aligned long aligned, WriteLayout.sectors]
      simp only [if_true]
      rw [rounded _ (by omega)]
    · have behind : valueSectors capabilities (capabilities.nvmSectorSize + valueLen) =
          1 + valueSectors capabilities valueLen := by
        unfold valueSectors
        rw [Nat.add_assoc, Nat.add_div_left _ sector, Nat.add_comm]
      rw [writeLayout_unaligned positive long aligned, WriteLayout.sectors]
      simp only [Bool.false_eq_true, if_false, Nat.zero_add]
      rw [rounded _ (by omega), behind]

end Extents

section Counting

/-- The shifts of a number count its bits. Induction is on the bound of the shifts,
which the half of a number keeps. -/
theorem shiftCount_bounds {fuel n : Nat} (bounded : n < 2 ^ fuel) (positive : 0 < n) :
    ∃ bits, shiftCount fuel n = bits + 1 ∧ 2 ^ bits ≤ n ∧ n < 2 ^ (bits + 1) := by
  induction fuel generalizing n with
  | zero =>
    rw [Nat.pow_zero] at bounded
    omega
  | succ fuel inductionHypothesis =>
    have half : n >>> 1 = n / 2 := by rw [Nat.shiftRight_eq_div_pow, Nat.pow_one]
    rw [shiftCount, if_neg (by omega), half]
    by_cases one : n = 1
    · subst one
      refine ⟨0, ?_, by norm_num, by norm_num⟩
      cases fuel <;> rfl
    · rw [Nat.pow_succ] at bounded
      obtain ⟨bits, count, lower, upper⟩ :=
        @inductionHypothesis (n / 2) (by omega) (by omega)
      refine ⟨bits + 1, by rw [count], ?_, ?_⟩
      · rw [Nat.pow_succ]
        omega
      · rw [Nat.pow_succ]
        omega

/-- The counted address bits number no more sectors than the device has. -/
theorem sparse_sectors_fit {store : NvmKvStore} {deviceSize : Nat} (bounded : deviceSize < 2 ^ 64)
    (counted : (store.sparseAddrBits : Int) = compSparseAddrBits deviceSize store.sectorSize) :
    store.kvLen ≤ deviceSize / store.sectorSize := by
  have sector := store.sector_positive
  have upper := store.sector_upper
  have bits := store.valueBits_lt
  have some : 0 < deviceSize := by
    by_contra none
    have zero : shiftCount 64 deviceSize = 0 := by
      rw [Nat.eq_zero_of_not_pos none]
      rfl
    rw [compSparseAddrBits, zero] at counted
    omega
  obtain ⟨sizeBits, sizeCount, sizeLower, _⟩ := shiftCount_bounds bounded some
  obtain ⟨sectorBits, sectorCount, sectorLower, sectorUpper⟩ :=
    @shiftCount_bounds 32 store.sectorSize (upper.trans_lt (by norm_num)) sector
  obtain ⟨pow, _, _, isPow⟩ := store.capabilities.sector_pow
  change store.sectorSize = 2 ^ pow at isPow
  have same : sectorBits = pow := by
    rw [isPow] at sectorLower sectorUpper
    have notMore := (Nat.pow_le_pow_iff_right (by norm_num)).mp sectorLower
    have notLess := (Nat.pow_lt_pow_iff_right (by norm_num)).mp sectorUpper
    omega
  rw [compSparseAddrBits, sizeCount, sectorCount, same] at counted
  rw [NvmKvStore.kvLen, Nat.le_div_iff_mul_le sector, isPow, ← Nat.pow_add,
    show store.sparseAddrBits + pow = sizeBits by omega]
  exact sizeLower

end Counting

namespace NvmKvStore

variable {store : NvmKvStore}

/-- The lower half of a slot has one MiB. -/
theorem half_slot_bytes : 2 ^ store.poolBits * store.sectorSize = mKvMaxValueRange / 2 := by
  obtain ⟨product, _, _⟩ := store.sector_value_bits
  have range : mKvMaxValueRange = 2097152 := rfl
  rw [slot_halves, Nat.mul_left_comm, Nat.mul_comm store.sectorSize] at product
  omega

/-- An accepted value takes at most half of the sectors of a slot, and all of them only
when it is longer than the layout's own limit. -/
theorem valueSectors_upper {valueLen : Nat} (bounded : valueLen ≤ nvmKvMaxValueSize) :
    valueSectors store.capabilities valueLen ≤ 2 ^ store.poolBits ∧
      (valueSectors store.capabilities valueLen = 2 ^ store.poolBits ↔
        store.maxValueSize < valueLen) := by
  have sector : 0 < store.sectorSize := store.sector_positive
  have small := store.sector_upper
  have half := store.half_slot_bytes
  have range : mKvMaxValueRange = 2097152 := rfl
  have values : nvmKvMaxValueSize = 1047552 := rfl
  obtain ⟨enough, close⟩ := valueSectors_covers store.capabilities valueLen
  change _ ≤ _ * store.sectorSize at enough
  change _ * store.sectorSize < _ + store.sectorSize at close
  have limit : store.maxValueSize = mKvMaxValueRange / 2 - store.sectorSize := rfl
  have most : valueSectors store.capabilities valueLen ≤ 2 ^ store.poolBits := by
    by_contra more
    have product := Nat.mul_le_mul_right store.sectorSize (Nat.lt_of_not_le more)
    rw [Nat.succ_mul] at product
    omega
  refine ⟨most, ?_⟩
  constructor
  · intro all
    rw [all] at close
    omega
  · intro long
    apply Nat.le_antisymm most
    by_contra less
    have product := Nat.mul_le_mul_right store.sectorSize (Nat.lt_of_not_le less)
    rw [Nat.succ_mul] at product
    omega

/-- An accepted pair has at most one sector more than half of a slot, and as many only
when its value is longer than the layout's own limit. -/
theorem pairSectors_upper {keyLen valueLen : Nat} (value : Memory)
    (short : keyLen ≤ nvmKvMaxKeySize) (positive : 0 < valueLen)
    (bounded : valueLen ≤ nvmKvMaxValueSize) :
    0 < pairSectors store.capabilities keyLen value valueLen ∧
      pairSectors store.capabilities keyLen value valueLen ≤ 2 ^ store.poolBits + 1 ∧
      (pairSectors store.capabilities keyLen value valueLen = 2 ^ store.poolBits + 1 ↔
        store.maxValueSize < valueLen) := by
  obtain ⟨most, all⟩ := @valueSectors_upper store valueLen bounded
  have offsets := Nat.two_pow_pos store.poolBits
  rw [pairSectors_eq value short positive bounded]
  split
  · rename_i fits
    have fitting : mKvHeaderSize + keyLen + valueLen ≤ store.sectorSize := fits
    have small := store.sector_upper
    have range : mKvMaxValueRange = 2097152 := rfl
    have limit : store.maxValueSize = mKvMaxValueRange / 2 - store.sectorSize := rfl
    refine ⟨Nat.one_pos, by omega, ?_⟩
    constructor <;> intro _ <;> omega
  · refine ⟨by omega, by omega, ?_⟩
    rw [← all]
    omega

/-- The first address of a key lies in the slot of its folded hash, and a pair there
does not reach beyond the slot. The slots of a store fit onto its device. -/
theorem slot_containment (store : NvmKvStore) (deviceSize : Nat) (poolId : UInt32)
    (key : List UInt8) (value : Memory) (valueLen : Nat) (representable : deviceSize < 2 ^ 64)
    (counted : (store.sparseAddrBits : Int) = compSparseAddrBits deviceSize store.sectorSize)
    (inUse : poolId.toNat < store.maxPools) (key_accepted : kvValidateKey key = true)
    (value_accepted : kvValidateValue store false valueLen = true) :
    (∃ slot, slot * mKvMaxValueRange ≤ store.probeLba poolId key 0 * store.sectorSize ∧
      (store.probeLba poolId key 0 + pairSectors store.capabilities key.length value valueLen) *
        store.sectorSize ≤ (slot + 1) * mKvMaxValueRange) ∧
    store.probeLba poolId key 0 + pairSectors store.capabilities key.length value valueLen ≤
      store.kvLen ∧
    store.kvLen ≤ deviceSize / store.sectorSize := by
  obtain ⟨long, short⟩ := of_decide_eq_true key_accepted
  obtain ⟨positive, bounded, _⟩ := of_decide_eq_true value_accepted
  obtain ⟨_, most, _⟩ := @pairSectors_upper store key.length valueLen value short positive bounded
  have address := @probeLba_eq store poolId key 0 inUse (List.length_pos_iff.mp long) (by decide)
  rw [show store.probeSlot poolId key 0 = store.keySlot poolId key from if_pos rfl] at address
  have slot := store.keySlot_lt poolId key
  have offset := @poolIdHash_lt store poolId inUse
  have halves := store.slot_halves
  obtain ⟨bytes, _, _⟩ := store.sector_value_bits
  have ends : store.probeLba poolId key 0 +
      pairSectors store.capabilities key.length value valueLen ≤
      (store.keySlot poolId key + 1) * 2 ^ store.valueBits := by
    rw [address, Nat.succ_mul]
    omega
  refine ⟨⟨store.keySlot poolId key, ?_, ?_⟩, ?_, sparse_sectors_fit representable counted⟩
  · rw [address, ← bytes, Nat.mul_left_comm, Nat.mul_comm store.sectorSize]
    exact Nat.mul_le_mul_right _ (Nat.le_add_right _ _)
  · rw [← bytes, Nat.mul_left_comm, Nat.mul_comm store.sectorSize]
    exact Nat.mul_le_mul_right _ ends
  · rw [kvLen_eq]
    exact ends.trans (Nat.mul_le_mul_right _ slot)

/-- The pair of the key `a` with the longest value, on a device of one TiB. -/
theorem slot_containment_longest :
    (∃ slot, slot * mKvMaxValueRange ≤
        terabyteStore.probeLba 3 [97] 0 * terabyteStore.sectorSize ∧
      (terabyteStore.probeLba 3 [97] 0 + pairSectors terabyteStore.capabilities 1
        (poolBuffer fun _ => 0) nvmKvMaxValueSize) * terabyteStore.sectorSize ≤
          (slot + 1) * mKvMaxValueRange) ∧
    terabyteStore.probeLba 3 [97] 0 + pairSectors terabyteStore.capabilities 1
      (poolBuffer fun _ => 0) nvmKvMaxValueSize ≤ terabyteStore.kvLen ∧
    terabyteStore.kvLen ≤ 2 ^ 40 / terabyteStore.sectorSize :=
  slot_containment terabyteStore (2 ^ 40) 3 [97] (poolBuffer fun _ => 0) nvmKvMaxValueSize
    (by norm_num) (by decide +kernel) (by decide) (by decide) (by decide)

end NvmKvStore

end Nvmkv
