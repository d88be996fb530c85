import Mathlib.Tactic.NormNum
import Nvmkv.Layout

/-!
# The slots of the probe addresses

Every probe address of a key is a slot number times the sectors of a slot plus
the pool's offset in the slot. The slot of the first address is the folded hash.
The slots of the others are reduced modulo a power of two that is smaller than
the number of slots: the probe divides the address space by the shift once more
after the sum was already shifted.

Hence the later addresses of a key lie in the first `2 ^ (keyBits - valueBits)`
slots, and in slot 0 when a store has no more key bits than value bits. The
slice address keeps the first address out of the metadata only as far as the
unfolded hash goes. `metadata_free_iff` says for which keys all eight addresses
are data addresses.
-/

namespace Nvmkv

/-- Fold a hash to the given number of bits. -/
def xorFold (bits h : Nat) : Nat := (h / 2 ^ bits ^^^ h) % 2 ^ bits

namespace NvmKvStore

variable {store : NvmKvStore}

/-- The two branches of the folding agree: above 32 bits nothing of the shifted
hash is masked away. -/
theorem keySlot_eq {poolId : UInt32} {key : List UInt8} (nonempty : key ≠ []) :
    store.keySlot poolId key = xorFold store.keyBits (store.hashFunc.fnv1a key poolId) := by
  have proper : ¬(key.length = 0 ∨ store.keyBits = 0) := by
    have positive := store.keyBits_positive
    have := List.length_pos_iff.mpr nonempty
    omega
  have hashed : store.hashFunc.fnv1a key poolId < 2 ^ 64 := NvmKvHashFunc.fnv1a_lt key poolId
  simp only [keySlot, NvmKvHashFunc.keyHash, if_neg proper, Bool.false_eq_true, if_false,
    xorFold, Nat.shiftRight_eq_div_pow, Nat.and_two_pow_sub_one_eq_mod]
  split
  · rename_i long
    have short : store.hashFunc.fnv1a key poolId / 2 ^ store.keyBits < 2 ^ store.keyBits := by
      apply Nat.div_lt_of_lt_mul
      rw [← Nat.pow_add]
      apply hashed.trans_le
      apply Nat.pow_le_pow_right (by norm_num)
      have : mTinyHashLen = 32 := rfl
      omega
    rw [Nat.xor_mod_two_pow, Nat.mod_eq_of_lt short]
  · rfl

/-- The slot of a key is one of the slots. -/
theorem keySlot_lt (poolId : UInt32) (key : List UInt8) :
    store.keySlot poolId key < 2 ^ store.keyBits := NvmKvHashFunc.keyHash_lt _ _ _

/-- The offset of a pool lies in the lower half of a slot: a hashed id has one
bit less than a sector number, and ids are not hashed only while all of them
are that small. -/
theorem poolIdHash_lt {poolId : UInt32} (known : poolId.toNat < store.maxPools) :
    store.poolIdHash poolId < 2 ^ store.poolBits := by
  unfold poolIdHash
  split
  · exact NvmKvHashFunc.keyHash_lt _ _ _
  · rename_i few
    unfold poolsHashed at few
    omega

/-- A slot has twice as many sectors as there are pool offsets. -/
theorem slot_halves : 2 ^ store.valueBits = 2 * 2 ^ store.poolBits := by
  obtain ⟨_, lower, _⟩ := store.sector_value_bits
  rw [← Nat.pow_succ']
  congr 1
  unfold poolBits
  omega

/-- A slot has more sectors than pool offsets. -/
theorem poolBits_lt : 2 ^ store.poolBits < 2 ^ store.valueBits := by
  have offsets := Nat.two_pow_pos store.poolBits
  rw [slot_halves]
  omega

/-- The slot of the address tried after `i` collisions. -/
def probeSlot (store : NvmKvStore) (poolId : UInt32) (key : List UInt8) (i : Nat) : Nat :=
  if i = 0 then
    store.keySlot poolId key
  else if store.valueBits < store.keyBits then
    (store.keySlot poolId key + i) % 2 ^ (store.keyBits - store.valueBits)
  else
    0

/-- The shift of an aligned hash is the number of value bits. -/
theorem keyHash_eq (poolId : UInt32) (key : List UInt8) :
    store.hashFunc.keyHash key poolId store.keyBits true =
      store.keySlot poolId key * 2 ^ store.valueBits := by
  have shift : store.sparseAddrBits - store.keyBits = store.valueBits := by
    have := store.keyBits_add_valueBits
    omega
  have aligned : store.hashFunc.keyHash key poolId store.keyBits true =
      store.keySlot poolId key * 2 ^ (store.sparseAddrBits - store.keyBits) :=
    NvmKvHashFunc.keyHash_align key poolId (Nat.sub_le _ _) store.addressesFit
  rw [aligned, shift]

/-- Collision resolution adds whole slots and reduces them by its own modulus, which is `2 ^
keyBits` sectors and not slots. A store with no more key bits than value bits has one such slot
only. Eight probes stay far from the end of the 64-bit numbers. -/
theorem resolveColl_slot {key : List UInt8} {slot i : Nat} (nonempty : key ≠ [])
    (inside : slot < 2 ^ store.keyBits) (probed : i ≤ maxCollision) :
    store.hashFunc.resolveColl key (slot * 2 ^ store.valueBits) i store.keyBits true =
      (slot + i) % 2 ^ (store.keyBits - store.valueBits) * 2 ^ store.valueBits := by
  have proper : ¬(key.length = 0 ∨ store.keyBits = 0) := by
    have positive := store.keyBits_positive
    have := List.length_pos_iff.mpr nonempty
    omega
  have bits := store.keyBits_add_valueBits
  have shift : store.hashFunc.alignmentAddr - store.keyBits = store.valueBits := by
    change store.sparseAddrBits - store.keyBits = store.valueBits
    omega
  have modulus : store.hashFunc.alignmentAddr - store.valueBits = store.keyBits := by
    change store.sparseAddrBits - store.valueBits = store.keyBits
    omega
  obtain ⟨_, lower, upper⟩ := store.sector_value_bits
  have addresses : 2 ^ store.keyBits * 2 ^ store.valueBits ≤ 2 ^ 63 := by
    rw [← Nat.pow_add, bits]
    exact Nat.pow_le_pow_right (by norm_num) (Nat.le_of_lt_succ store.addressesFit)
  have sectors : 2 ^ store.valueBits ≤ 2 ^ 12 := Nat.pow_le_pow_right (by norm_num) upper
  have first : slot * 2 ^ store.valueBits < 2 ^ 63 :=
    (Nat.mul_lt_mul_of_pos_right inside (Nat.two_pow_pos _)).trans_le addresses
  have step : i * 2 ^ store.valueBits ≤ 2 ^ 15 := by
    calc i * 2 ^ store.valueBits ≤ 8 * 2 ^ 12 := Nat.mul_le_mul probed sectors
      _ = 2 ^ 15 := by norm_num
  simp only [NvmKvHashFunc.resolveColl, if_neg proper, if_true, shift,
    NvmKvHashFunc.sequentialProbe, modulus, Nat.shiftLeft_eq]
  rw [Nat.mod_eq_of_lt (a := i * 2 ^ store.valueBits) (by omega),
    Nat.mod_eq_of_lt (a := slot * 2 ^ store.valueBits + _) (by omega), ← Nat.add_mul]
  by_cases wide : store.valueBits < store.keyBits
  · have split : store.keyBits = (store.keyBits - store.valueBits) + store.valueBits := by omega
    conv_lhs => rw [split, Nat.pow_add, Nat.mul_mod_mul_right]
  · have whole : 2 ^ store.keyBits ∣ (slot + i) * 2 ^ store.valueBits :=
      Dvd.dvd.mul_left (Nat.pow_dvd_pow 2 (by omega)) _
    have one : 2 ^ (store.keyBits - store.valueBits) = 1 := by
      rw [Nat.sub_eq_zero_of_le (Nat.le_of_not_lt wide), Nat.pow_zero]
    rw [Nat.mod_eq_zero_of_dvd whole, one, Nat.mod_one, Nat.zero_mul]

/-- The slots of the later addresses of a key. -/
theorem resolveColl_eq {poolId : UInt32} {key : List UInt8} {i : Nat} (nonempty : key ≠ [])
    (later : i ≠ 0) (probed : i < maxCollision) :
    store.hashFunc.resolveColl key (store.keySlot poolId key * 2 ^ store.valueBits) i
      store.keyBits true = store.probeSlot poolId key i * 2 ^ store.valueBits := by
  rw [resolveColl_slot nonempty (store.keySlot_lt poolId key) (Nat.le_of_lt probed)]
  simp only [probeSlot, if_neg later]
  split
  · rfl
  · rename_i narrow
    rw [Nat.sub_eq_zero_of_le (Nat.le_of_not_lt narrow), Nat.pow_zero, Nat.mod_one]

/-- A probe address is its slot's first sector with the bits of the pool's hash. -/
theorem probeLba_or {poolId : UInt32} {key : List UInt8} {i : Nat} (nonempty : key ≠ [])
    (probed : i < maxCollision) :
    store.probeLba poolId key i =
      store.probeSlot poolId key i * 2 ^ store.valueBits ||| store.poolIdHash poolId := by
  have hash : (if i = 0 then store.hashFunc.keyHash key poolId store.keyBits true
      else store.hashFunc.resolveColl key
        (store.hashFunc.keyHash key poolId store.keyBits true) i store.keyBits true) =
      store.probeSlot poolId key i * 2 ^ store.valueBits := by
    split
    · rename_i first
      rw [keyHash_eq, probeSlot, if_pos first]
    · rename_i later
      rw [keyHash_eq]
      exact resolveColl_eq nonempty later probed
  simp only [probeLba, hash]

/-- A hash with no more bits than a sector number is the offset in the slot. -/
theorem probeLba_add {poolId : UInt32} {key : List UInt8} {i : Nat}
    (inside : store.poolIdHash poolId < 2 ^ store.valueBits) (nonempty : key ≠ [])
    (probed : i < maxCollision) :
    store.probeLba poolId key i =
      store.probeSlot poolId key i * 2 ^ store.valueBits + store.poolIdHash poolId := by
  rw [probeLba_or nonempty probed, Nat.mul_comm, ← Nat.two_pow_add_eq_or_of_lt inside]

/-- A probe address of a pool in use is its slot's first sector plus the offset of the
pool. -/
theorem probeLba_eq {poolId : UInt32} {key : List UInt8} {i : Nat}
    (known : poolId.toNat < store.maxPools) (nonempty : key ≠ []) (probed : i < maxCollision) :
    store.probeLba poolId key i =
      store.probeSlot poolId key i * 2 ^ store.valueBits + store.poolIdHash poolId :=
  probeLba_add ((poolIdHash_lt known).trans poolBits_lt) nonempty probed

/-- An address in a slot is a data address when the slot is not reserved. -/
theorem data_address_iff {slot offset : Nat} (inside : offset < 2 ^ store.valueBits) :
    (store.dataStartLba ≤ slot * 2 ^ store.valueBits + offset ∧
      slot * 2 ^ store.valueBits + offset < store.kvLen) ↔
    store.sliceAddr ≤ slot ∧ slot < 2 ^ store.keyBits := by
  have positive : 0 < 2 ^ store.valueBits := Nat.two_pow_pos _
  have quotient : (slot * 2 ^ store.valueBits + offset) / 2 ^ store.valueBits = slot := by
    rw [Nat.mul_comm, Nat.mul_add_div positive, Nat.div_eq_of_lt inside, Nat.add_zero]
  rw [dataStartLba_eq, kvLen_eq, ← Nat.le_div_iff_mul_le positive,
    ← Nat.div_lt_iff_lt_mul positive, quotient]

/-- All addresses tried for a key are data addresses. -/
def MetadataFree (store : NvmKvStore) (poolId : UInt32) (key : List UInt8) : Prop :=
  ∀ i, i < maxCollision → store.dataStartLba ≤ store.probeLba poolId key i ∧
    store.probeLba poolId key i < store.kvLen

/-- Where the folded hash of a key may lie so that no probe wraps around and none
comes to lie below the slice address. -/
def ClearOfMetadata (store : NvmKvStore) (slot : Nat) : Prop :=
  store.sliceAddr ≤ slot ∧ store.valueBits < store.keyBits ∧
    store.sliceAddr ≤ slot % 2 ^ (store.keyBits - store.valueBits) + 1 ∧
    slot % 2 ^ (store.keyBits - store.valueBits) + 7 < 2 ^ (store.keyBits - store.valueBits)

/-- The slots of the seven collision addresses are data slots: a wrap-around
within seven steps passes slot 0. -/
theorem collision_slots_iff {slot period slice : Nat} (positive : 0 < period)
    (reserved : 2 ≤ slice) :
    (∀ i, i < maxCollision → i ≠ 0 → slice ≤ (slot + i) % period) ↔
      slice ≤ slot % period + 1 ∧ slot % period + 7 < period := by
  have rest : slot % period < period := Nat.mod_lt _ positive
  have sum : ∀ i, (slot + i) % period = (slot % period + i) % period := by
    intro i
    rw [Nat.mod_add_mod]
  constructor
  · intro free
    have noWrap : slot % period + 7 < period := by
      by_contra wraps
      have passed := free (period - slot % period) (by unfold maxCollision; omega) (by omega)
      have zero : (slot + (period - slot % period)) % period = 0 := by
        rw [sum, Nat.add_sub_cancel' (Nat.le_of_lt rest), Nat.mod_self]
      omega
    have first := free 1 (by unfold maxCollision; omega) (by omega)
    rw [sum, Nat.mod_eq_of_lt (by omega)] at first
    exact ⟨first, noWrap⟩
  · rintro ⟨lower, upper⟩ i probed later
    unfold maxCollision at probed
    rw [sum, Nat.mod_eq_of_lt (by omega)]
    omega

/-- All addresses of a key of a pool in use lie in the data area exactly when its folded hash is
clear of the metadata. Without spare key bits every collision leads to slot 0. -/
theorem metadata_free_iff (store : NvmKvStore) (poolId : UInt32) (key : List UInt8)
    (inUse : poolId.toNat < store.maxPools)
    (accepted : 1 ≤ key.length ∧ key.length ≤ nvmKvMaxKeySize) :
    store.MetadataFree poolId key ↔
      store.ClearOfMetadata (xorFold store.keyBits (store.hashFunc.fnv1a key poolId)) := by
  have nonempty : key ≠ [] := List.length_pos_iff.mp accepted.1
  have offset : store.poolIdHash poolId < 2 ^ store.valueBits :=
    (poolIdHash_lt inUse).trans poolBits_lt
  have slots : store.MetadataFree poolId key ↔ ∀ i, i < maxCollision →
      store.sliceAddr ≤ store.probeSlot poolId key i ∧
        store.probeSlot poolId key i < 2 ^ store.keyBits := by
    apply forall_congr'
    intro i
    apply imp_congr_right
    intro probed
    rw [probeLba_eq inUse nonempty probed]
    exact data_address_iff offset
  have first : store.probeSlot poolId key 0 = store.keySlot poolId key := if_pos rfl
  have reserved := (store.sliceAddr_bounds).1
  rw [slots, ← keySlot_eq nonempty]
  unfold ClearOfMetadata
  by_cases wide : store.valueBits < store.keyBits
  · have later : ∀ i, i ≠ 0 → store.probeSlot poolId key i =
        (store.keySlot poolId key + i) % 2 ^ (store.keyBits - store.valueBits) := by
      intro i nonzero
      simp only [probeSlot, if_neg nonzero, if_pos wide]
    have periods : 2 ^ (store.keyBits - store.valueBits) ≤ 2 ^ store.keyBits :=
      Nat.pow_le_pow_right (by norm_num) (Nat.sub_le _ _)
    rw [← collision_slots_iff (Nat.two_pow_pos _) reserved]
    constructor
    · intro free
      refine ⟨first ▸ (free 0 (by unfold maxCollision; omega)).1, wide, ?_⟩
      intro i probed nonzero
      rw [← later i nonzero]
      exact (free i probed).1
    · rintro ⟨initial, _, collisions⟩ i probed
      by_cases zero : i = 0
      · subst zero
        rw [first]
        exact ⟨initial, store.keySlot_lt poolId key⟩
      · refine ⟨later i zero ▸ collisions i probed zero, ?_⟩
        rw [later i zero]
        exact (Nat.mod_lt _ (Nat.two_pow_pos _)).trans_le periods
  · constructor
    · intro free
      have collision := (free 1 (by unfold maxCollision; omega)).1
      simp only [probeSlot, if_neg wide, one_ne_zero, if_false] at collision
      omega
    · rintro ⟨_, spare, _⟩
      exact absurd spare wide

/-- A store on a device of `2 ^ 31` sectors of 512 bytes. -/
def terabyteStore : NvmKvStore where
  capabilities :=
    { nvmMaxNumIovs := 64
      nvmAtomicWriteMultiplicity := 512
      nvmMaxWriteSizePerIov := 1024
      nvmMaxTrimSizePerIov := 4096
      nvmSectorSize := 512
      sectorSupported := by decide
      writeSectors := by decide
      writePositive := by decide
      trimSectors := by decide
      trimPositive := by decide
      iovsPositive := by decide }
  sparseAddrBits := 31
  maxPools := 4
  expiryMode := .disableExpiry
  globalExpiry := 0
  cacheSize := 0
  keyBitsPositive := by decide
  addressesFit := by decide
  poolsPositive := by decide
  poolsBounded := by decide

/-- The third collision of the key `j` in the default pool leads to sector 0,
where the store keeps its metadata. -/
theorem collision_hits_metadata :
    terabyteStore.probeLba 0 [106] 3 = 0 ∧
      ¬∀ (store : NvmKvStore) (poolId : UInt32) (key : List UInt8),
        poolId.toNat < store.maxPools → 1 ≤ key.length ∧ key.length ≤ nvmKvMaxKeySize →
          store.MetadataFree poolId key := by
  have address : terabyteStore.probeLba 0 [106] 3 = 0 := by decide +kernel
  refine ⟨address, ?_⟩
  intro free
  have outside := (free terabyteStore 0 [106] (by decide) (by decide) 3 (by decide)).1
  rw [address] at outside
  exact absurd outside (by decide +kernel)

/-- The key `a` of the same store is clear of the metadata. -/
theorem metadata_free_clear : terabyteStore.MetadataFree 0 [97] :=
  (metadata_free_iff terabyteStore 0 [97] (by decide) (by decide)).mpr
    ⟨by decide +kernel, by decide +kernel, by decide +kernel, by decide +kernel⟩

end NvmKvStore

end Nvmkv
