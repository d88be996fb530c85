import Mathlib.Data.Nat.Bitwise
import Nvmkv.ByteRegions

/-!
# Constants, utilities and the parameters of an open store

The limits of `nvm_kv.h`, the rounding of `kv_util.h`, the error codes the
modelled functions return and the capabilities the device reports. Lengths,
addresses and times are natural numbers; where the code keeps them in 32 or 64
bits and a reduction can show, the definition reduces explicitly.

The device is outside the repository. Of its capabilities the store relies on
a supported sector size and on vector limits that are whole sectors; these are
fields of the capabilities and not premises of the theorems. Nothing is assumed
of the limits beyond that; in particular they need not be powers of two.
-/

namespace Nvmkv

/-- Bytes of the longest key. -/
def nvmKvMaxKeySize : Nat := 128

/-- One MiB less one KiB, for every sector size. -/
def nvmKvMaxValueSize : Nat := 1047552

/-- The greatest number of pools. -/
def nvmKvMaxPools : Nat := 1048576

/-- Probe positions tried for a key (`M_MAX_COLLISION`). -/
def maxCollision : Nat := 8

/-- The negated return codes of the modelled functions. -/
inductive NvmErrorCode where
  | outOfMemory
  | internalFailure
  | objectExists
  | io
  | invalidInput
  | objectNotFound
  | memoryNotAligned
  deriving DecidableEq, Repr

/-- Round up to a multiple of a block size that is a power of two, in 64-bit
arithmetic. The mask is the complement of `blk - 1`; it is empty for no block. -/
def nvmKvRoundUptoBlk (value blk : Nat) : Nat :=
  if blk = 0 then 0
  else (value + (blk - 1)) % 2 ^ 64 &&& (2 ^ 64 - 1 - (blk - 1))

/-- Clearing the low bits of a number of some width keeps the multiple of the power of
two below it. -/
theorem and_high_mask {width : Nat} (value bits : Nat) (bounded : value < 2 ^ width)
    (short : bits ≤ width) :
    value &&& (2 ^ width - 2 ^ bits) = value / 2 ^ bits * 2 ^ bits := by
  apply Nat.eq_of_testBit_eq
  intro i
  have mask : 2 ^ width - 2 ^ bits = 2 ^ bits * (2 ^ (width - bits) - 1) := by
    rw [Nat.mul_sub, ← Nat.pow_add, Nat.mul_one]
    congr 2
    omega
  rw [Nat.testBit_and, mask, Nat.mul_comm (value / 2 ^ bits), Nat.testBit_two_pow_mul,
    Nat.testBit_two_pow_mul, Nat.testBit_two_pow_sub_one, Nat.testBit_div_two_pow]
  by_cases low : bits ≤ i
  · by_cases high : i < width
    · have inMask : i - bits < width - bits := by omega
      have index : i - bits + bits = i := by omega
      simp [low, inMask, index]
    · have absent : value.testBit i = false :=
        Nat.testBit_lt_two_pow (bounded.trans_le (Nat.pow_le_pow_right (by decide) (by omega)))
      have index : i - bits + bits = i := by omega
      simp [low, index, absent]
  · simp [low]

/-- Rounding up to a power of two, as long as nothing wraps. -/
theorem round_upto_pow (value bits : Nat) (short : bits < 64)
    (bounded : value + 2 ^ bits ≤ 2 ^ 64) :
    nvmKvRoundUptoBlk value (2 ^ bits) = (value + (2 ^ bits - 1)) / 2 ^ bits * 2 ^ bits := by
  have positive : 0 < 2 ^ bits := Nat.two_pow_pos bits
  have small : 2 ^ bits < 2 ^ 64 := Nat.pow_lt_pow_right (by decide) short
  have mask : 2 ^ 64 - 1 - (2 ^ bits - 1) = 2 ^ 64 - 2 ^ bits := by omega
  rw [nvmKvRoundUptoBlk, if_neg (Nat.ne_of_gt positive), mask, Nat.mod_eq_of_lt (by omega)]
  exact and_high_mask _ bits (by omega) (by omega)

/-- What the device reports about itself (`nvm_kv_store_capabilities_t`). -/
structure NvmKvStoreCapabilities where
  nvmMaxNumIovs : Nat
  nvmAtomicWriteMultiplicity : Nat
  nvmMaxWriteSizePerIov : Nat
  nvmMaxTrimSizePerIov : Nat
  nvmSectorSize : Nat
  sectorSupported : nvmSectorSize ∈ [512, 1024, 2048, 4096]
  writeSectors : nvmSectorSize ∣ nvmAtomicWriteMultiplicity * nvmMaxWriteSizePerIov
  writePositive : 0 < nvmAtomicWriteMultiplicity * nvmMaxWriteSizePerIov
  trimSectors : nvmSectorSize ∣ nvmAtomicWriteMultiplicity * nvmMaxTrimSizePerIov
  trimPositive : 0 < nvmAtomicWriteMultiplicity * nvmMaxTrimSizePerIov
  iovsPositive : 0 < nvmMaxNumIovs

namespace NvmKvStoreCapabilities

variable (capabilities : NvmKvStoreCapabilities)

/-- Bytes one write vector may carry. -/
def maxWriteSize : Nat :=
  capabilities.nvmAtomicWriteMultiplicity * capabilities.nvmMaxWriteSizePerIov

/-- Bytes one trim vector may cover. -/
def maxTrimSize : Nat :=
  capabilities.nvmAtomicWriteMultiplicity * capabilities.nvmMaxTrimSizePerIov

/-- Supported sectors have 512 to 4096 bytes, a power of two. -/
theorem sector_pow : ∃ bits, 9 ≤ bits ∧ bits ≤ 12 ∧ capabilities.nvmSectorSize = 2 ^ bits := by
  have supported := capabilities.sectorSupported
  simp only [List.mem_cons, List.not_mem_nil, or_false] at supported
  rcases supported with size | size | size | size
  · exact ⟨9, by omega, by omega, size⟩
  · exact ⟨10, by omega, by omega, size⟩
  · exact ⟨11, by omega, by omega, size⟩
  · exact ⟨12, by omega, by omega, size⟩

/-- A sector has bytes. -/
theorem sector_positive : 0 < capabilities.nvmSectorSize := by
  obtain ⟨bits, _, _, size⟩ := capabilities.sector_pow
  rw [size]
  exact Nat.two_pow_pos bits

/-- It has at most 4096 of them. -/
theorem sector_upper : capabilities.nvmSectorSize ≤ 2 ^ 12 := by
  obtain ⟨bits, _, upper, size⟩ := capabilities.sector_pow
  rw [size]
  exact Nat.pow_le_pow_right Nat.two_pos upper

/-- Rounding a length up to a sector gives the sectors that hold it. -/
theorem round_upto_sector (length : Nat) (bounded : length < 2 ^ 63) :
    nvmKvRoundUptoBlk length capabilities.nvmSectorSize =
      (length + (capabilities.nvmSectorSize - 1)) / capabilities.nvmSectorSize *
        capabilities.nvmSectorSize := by
  obtain ⟨bits, lower, upper, size⟩ := capabilities.sector_pow
  rw [size]
  have small : 2 ^ bits ≤ 2 ^ 12 := Nat.pow_le_pow_right (by decide) upper
  exact round_upto_pow length bits (by omega) (by omega)

end NvmKvStoreCapabilities

/-- The expiry mode kept in the store metadata. -/
inductive NvmKvExpiry where
  | disableExpiry
  | arbitraryExpiry
  | globalExpiry
  deriving DecidableEq, Repr

/-- The lesser of two lengths in whole sectors. -/
theorem lesser_sectors {sector : Nat} (positive : 0 < sector) (first second : Nat) :
    (if first * sector < second * sector then first * sector else second * sector) =
      min second first * sector := by
  by_cases less : first < second
  · rw [if_pos (Nat.mul_lt_mul_of_pos_right less positive), Nat.min_eq_right less.le]
  · rw [if_neg fun smaller => less (Nat.lt_of_mul_lt_mul_right smaller),
      Nat.min_eq_left (Nat.le_of_not_lt less)]

end Nvmkv
