import Nvmkv.AddressDecoding
import Nvmkv.PairExtents

/-!
# The gap between pairs of different slots

The iterator reports what is mapped without a gap as one range, so that pairs can be
told apart only while a sector between them is not mapped. Within a slot there is one
pair of a pool at most; between neighbouring slots the gap is what the lower pair
leaves of its slot and the offset of the upper pair in its own.

One limit on the length of a value is applied to all sector sizes. It is one MiB less
a sector for sectors of one KiB, and more than that for larger ones. There a value may
need half of a slot, and from the last offset of a pool on the pair then ends with its
slot. The id that stands for all pools leaves even less: where ids are not hashed, it
puts a pair into the last sector of a slot.
-/

namespace Nvmkv

/-- A pair that the validation of a put accepts, at one of the addresses tried for its
key. -/
structure PlacedPair (store : NvmKvStore) where
  poolId : UInt32
  key : List UInt8
  value : Memory
  valueLen : Nat
  probe : Nat
  poolAccepted : ∃ mgr pending, Bookkeeping store mgr pending ∧ mgr.validates poolId = true
  keyAccepted : kvValidateKey key = true
  valueAccepted : kvValidateValue store false valueLen = true
  probed : probe < maxCollision

namespace PlacedPair

variable {store : NvmKvStore} (pair lower upper first second : PlacedPair store)

/-- The address that the pair is probed for. -/
def lba : Nat := store.probeLba pair.poolId pair.key pair.probe

/-- The sectors of the pair from its address on. -/
def sectors : Nat := pairSectors store.capabilities pair.key.length pair.value pair.valueLen

/-- The slot that the address lies in. -/
def slot : Nat := pair.lba / 2 ^ store.valueBits

/-- The sectors of the slot before the address. -/
def offset : Nat := pair.lba % 2 ^ store.valueBits

/-- A sector between two pairs belongs to neither. -/
def Separate : Prop :=
  ∃ l, first.lba + first.sectors ≤ l ∧ l < second.lba ∨
    second.lba + second.sectors ≤ l ∧ l < first.lba

/-- A pair reaches up to the pair of the next slot: it was put for all pools and has more
sectors than that one has before it, or its value is longer than the layout's own limit,
its pool has the last offset and the other one the first. -/
def RunsInto : Prop :=
  lower.slot + 1 = upper.slot ∧
    if lower.poolId = poolIdAll ∧ ¬store.poolsHashed then upper.offset < lower.sectors
    else store.maxValueSize < lower.valueLen ∧ lower.offset + 1 = 2 ^ store.poolBits ∧
      upper.offset = 0

variable {pair lower upper first second}

/-- It is the start of its slot and the offset there. -/
theorem lba_eq (pair : PlacedPair store) :
    pair.lba = pair.slot * 2 ^ store.valueBits + pair.offset := by
  rw [Nat.mul_comm]
  exact (Nat.div_add_mod _ _).symm

/-- The offset of a pair is what its pool's hash is in a slot. -/
theorem offset_eq (pair : PlacedPair store) :
    pair.offset = store.poolIdHash pair.poolId % 2 ^ store.valueBits :=
  probeLba_offset store pair.poolId
    (List.length_pos_iff.mp (of_decide_eq_true pair.keyAccepted).1) pair.probed

/-- An offset is within its slot. -/
theorem offset_lt (pair : PlacedPair store) : pair.offset < 2 ^ store.valueBits :=
  Nat.mod_lt _ (Nat.two_pow_pos _)

/-- A pair put for all pools lies in the last sector of a slot where ids are not hashed,
and any other pair in the lower half. -/
theorem offset_cases (pair : PlacedPair store) :
    (pair.poolId = poolIdAll ∧ ¬store.poolsHashed) ∧ pair.offset + 1 = 2 ^ store.valueBits ∨
      ¬(pair.poolId = poolIdAll ∧ ¬store.poolsHashed) ∧ pair.offset < 2 ^ store.poolBits := by
  obtain ⟨mgr, pending, books, accepted⟩ := pair.poolAccepted
  have narrow := @NvmKvStore.poolBits_lt store
  by_cases all : pair.poolId = poolIdAll ∧ ¬store.poolsHashed
  · left
    obtain ⟨_, _, upper⟩ := store.sector_value_bits
    have fewer : 2 ^ store.valueBits ∣ 2 ^ 32 := Nat.pow_dvd_pow 2 (by omega)
    have sectors := Nat.two_pow_pos store.valueBits
    obtain ⟨slots, whole⟩ := fewer
    refine ⟨all, ?_⟩
    rw [offset_eq, all.1, NvmKvStore.poolIdHash_all all.2, whole]
    have some : 0 < slots := by
      by_contra none
      rw [Nat.eq_zero_of_not_pos none] at whole
      omega
    obtain ⟨before, rfl⟩ := Nat.exists_eq_succ_of_ne_zero some.ne'
    rw [Nat.mul_succ, Nat.add_sub_assoc sectors, Nat.mul_add_mod, Nat.mod_eq_of_lt (by omega)]
    omega
  · right
    refine ⟨all, ?_⟩
    have told : pair.poolId ≠ poolIdAll ∨ store.poolsHashed := by
      by_contra neither
      obtain ⟨same, unhashed⟩ := not_or.mp neither
      exact all ⟨not_not.mp same, unhashed⟩
    have small := NvmKvStore.poolIdHash_narrow (books.validated accepted) told
    rw [offset_eq, Nat.mod_eq_of_lt (small.trans narrow)]
    exact small

/-- A pair has at most one sector more than half a slot, and only with a value above the layout's
own limit. -/
theorem sectors_upper (pair : PlacedPair store) :
    0 < pair.sectors ∧ pair.sectors ≤ 2 ^ store.poolBits + 1 ∧
      (pair.sectors = 2 ^ store.poolBits + 1 ↔ store.maxValueSize < pair.valueLen) := by
  obtain ⟨_, short⟩ := of_decide_eq_true pair.keyAccepted
  obtain ⟨positive, bounded, _⟩ := of_decide_eq_true pair.valueAccepted
  exact NvmKvStore.pairSectors_upper pair.value short positive bounded

/-- The lower one of two pairs ends before the upper one starts, with a sector between
them, unless it runs into it. -/
theorem ends_before_iff (below : lower.slot < upper.slot) :
    lower.lba + lower.sectors < upper.lba ↔ ¬lower.RunsInto upper := by
  obtain ⟨some, most, longest⟩ := lower.sectors_upper
  have halves := @NvmKvStore.slot_halves store
  have offsets := Nat.two_pow_pos store.poolBits
  have inside := lower.offset_lt
  rw [lower.lba_eq, upper.lba_eq, RunsInto]
  by_cases next : lower.slot + 1 = upper.slot
  · rw [← next, Nat.succ_mul]
    rcases lower.offset_cases with ⟨all, last⟩ | ⟨single, early⟩
    · rw [if_pos all]
      constructor
      · rintro ends ⟨_, touches⟩
        omega
      · intro apart
        have behind : ¬upper.offset < lower.sectors := fun touches => apart ⟨rfl, touches⟩
        omega
    · rw [if_neg single, ← longest]
      constructor
      · rintro ends ⟨_, long, final, first⟩
        omega
      · intro apart
        by_contra touches
        exact apart ⟨rfl, by omega, by omega, by omega⟩
  · have further : (lower.slot + 2) * 2 ^ store.valueBits ≤ upper.slot * 2 ^ store.valueBits :=
      Nat.mul_le_mul_right _ (by omega)
    rw [Nat.add_mul] at further
    constructor
    · exact fun _ runs => next runs.1
    · intro _
      omega

/-- The sector between two pairs is above the lower one. -/
theorem separate_iff (below : lower.slot < upper.slot) :
    lower.Separate upper ↔ lower.lba + lower.sectors < upper.lba := by
  have ordered : lower.lba ≤ upper.lba := by
    have slots : (lower.slot + 1) * 2 ^ store.valueBits ≤ upper.slot * 2 ^ store.valueBits :=
      Nat.mul_le_mul_right _ below
    have inside := lower.offset_lt
    rw [Nat.succ_mul] at slots
    rw [lower.lba_eq, upper.lba_eq]
    omega
  constructor
  · rintro ⟨l, ⟨behind, before⟩ | ⟨behind, before⟩⟩ <;> omega
  · intro ends
    exact ⟨lower.lba + lower.sectors, Or.inl ⟨le_rfl, ends⟩⟩

/-- That pairs are separate goes for both. -/
theorem Separate.symm (separate : first.Separate second) : second.Separate first := by
  obtain ⟨l, between⟩ := separate
  exact ⟨l, between.symm⟩

/-- Two accepted pairs at addresses in different slots have a sector between them that
belongs to neither, just when neither of them runs into the other. -/
theorem separate_slots_iff (store : NvmKvStore) (first second : PlacedPair store)
    (different : first.slot ≠ second.slot) :
    first.Separate second ↔ ¬first.RunsInto second ∧ ¬second.RunsInto first := by
  rcases Nat.lt_or_gt_of_ne different with below | above
  · have backwards : ¬second.RunsInto first := fun runs => by
      have next := runs.1
      omega
    rw [separate_iff below, ends_before_iff below]
    exact ⟨fun apart => ⟨apart, backwards⟩, fun apart => apart.1⟩
  · have backwards : ¬first.RunsInto second := fun runs => by
      have next := runs.1
      omega
    have turned : first.Separate second ↔ second.Separate first := ⟨.symm, .symm⟩
    rw [turned, separate_iff above, ends_before_iff above]
    exact ⟨fun apart => ⟨backwards, apart⟩, fun apart => apart.2⟩

/-- The keys `a` and `b` of the default pool of a store with sectors of 512 bytes, with
the longest values. -/
def longestPair (letter : UInt8) : PlacedPair NvmKvStore.terabyteStore where
  poolId := 0
  key := [letter]
  value := poolBuffer fun _ => 0
  valueLen := nvmKvMaxValueSize
  probe := 0
  poolAccepted := ⟨.created fun _ => .zero, fun _ => false, .created _ _, by decide⟩
  keyAccepted := rfl
  valueAccepted := by decide
  probed := by decide

/-- Two pairs of the greatest length are. -/
theorem longest_pairs_separate : (longestPair 97).Separate (longestPair 98) :=
  (separate_slots_iff NvmKvStore.terabyteStore (longestPair 97) (longestPair 98)
    (by decide +kernel)).mpr
    ⟨fun runs => absurd runs.1 (by decide +kernel), fun runs => absurd runs.1 (by decide +kernel)⟩

/-- A store with sectors of 4096 bytes and one pool for each pool offset. -/
def largeSectorStore : NvmKvStore where
  capabilities :=
    { nvmMaxNumIovs := 48
      nvmAtomicWriteMultiplicity := 4096
      nvmMaxWriteSizePerIov := 1024
      nvmMaxTrimSizePerIov := 4096
      nvmSectorSize := 4096
      sectorSupported := by decide
      writeSectors := by decide
      writePositive := by decide
      trimSectors := by decide
      trimPositive := by decide
      iovsPositive := by decide }
  sparseAddrBits := 28
  maxPools := 256
  expiryMode := .disableExpiry
  globalExpiry := 0
  cacheSize := 0
  keyBitsPositive := by decide
  addressesFit := by decide
  poolsPositive := by decide
  poolsBounded := by decide

/-- The longest value under the key `bys` of its last pool. -/
def lastPoolPair : PlacedPair largeSectorStore where
  poolId := 255
  key := [98, 121, 115]
  value := poolBuffer fun _ => 0
  valueLen := nvmKvMaxValueSize
  probe := 0
  poolAccepted :=
    ⟨(NvmKvPoolMgr.created fun _ => .zero).allocated none 255, fun _ => false,
      (Bookkeeping.created _ _).allocated none (by decide) (by decide), by decide⟩
  keyAccepted := rfl
  valueAccepted := by decide
  probed := by decide

/-- A value of one byte under the key `rk` of the default pool. -/
def firstPoolPair : PlacedPair largeSectorStore where
  poolId := 0
  key := [114, 107]
  value := poolBuffer fun _ => 0
  valueLen := 1
  probe := 0
  poolAccepted := ⟨.created fun _ => .zero, fun _ => false, .created _ _, by decide⟩
  keyAccepted := rfl
  valueAccepted := by decide
  probed := by decide

/-- The first one has 257 sectors and ends where the second one starts, at the first sector
of the next slot. -/
theorem long_value_touches_next_slot :
    (lastPoolPair.slot ≠ firstPoolPair.slot ∧ ¬lastPoolPair.Separate firstPoolPair) ∧
      ¬∀ (store : NvmKvStore) (first second : PlacedPair store), first.slot ≠ second.slot →
        first.Separate second := by
  have different : lastPoolPair.slot ≠ firstPoolPair.slot := by decide +kernel
  have touches : ¬lastPoolPair.Separate firstPoolPair := by
    have same : lastPoolPair.lba + lastPoolPair.sectors = firstPoolPair.lba := by decide +kernel
    have some : 0 < firstPoolPair.sectors := firstPoolPair.sectors_upper.1
    rintro ⟨l, ⟨behind, before⟩ | ⟨behind, before⟩⟩ <;> omega
  exact ⟨⟨different, touches⟩, fun separate => touches (separate _ _ _ different)⟩

end PlacedPair

end Nvmkv
