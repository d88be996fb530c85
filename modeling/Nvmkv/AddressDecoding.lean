import Nvmkv.PoolBookkeeping
import Nvmkv.PoolDeletion
import Nvmkv.StoredPairs

/-!
# What an address tells of its pool

The iterator and the deletion of pools take the low bits of an address for the hash
of the pool that the pair there belongs to. The mask has one bit less than a sector
number of a slot, and a pool of the store has a hash of no more bits than that: ids
are hashed as soon as there may be more pools than offsets.

Validation lets one more id through, the one that stands for all pools. In a store
that does not hash its ids it is or-ed into the address as it is, with all its 32
bits, and an address from which it was the id can not be told any more.
-/

namespace Nvmkv

/-- Whether `kv_internal_validation` accepts a pool id for the calls on a pair. -/
def NvmKvPoolMgr.validates (mgr : NvmKvPoolMgr) (poolId : UInt32) : Bool :=
  mgr.checkPoolStatus poolId = .poolInUse ∨ poolId = poolIdAll

/-- The programs validate an id by this when the shared bitmaps are the manager's. -/
theorem run_kvValidatePoolId_mgr {ι : Type} {store : NvmKvStore} {thread : ι}
    {state : StoreState ι} {mgr : NvmKvPoolMgr} (poolId : UInt32)
    (inUse : state.inUse = bitmapTest mgr.inUse)
    (deleted : state.deleted = bitmapTest mgr.deleted) :
    (kvValidatePoolId poolId).run (answer store thread) state =
      some (mgr.validates poolId, state) := by
  rw [run_kvValidatePoolId, inUse, deleted]
  rfl

/-- An accepted id is that of a pool the store has room for, or stands for all pools. -/
theorem Bookkeeping.validated {store : NvmKvStore} {mgr : NvmKvPoolMgr} {pending : Nat → Bool}
    (books : Bookkeeping store mgr pending) {poolId : UInt32}
    (accepted : mgr.validates poolId = true) :
    poolId.toNat < store.maxPools ∨ poolId = poolIdAll := by
  rcases of_decide_eq_true accepted with used | all
  · left
    by_cases default : poolId.toNat = 0
    · rw [default]
      exact store.poolsPositive
    · apply books.inUseBounded
      by_contra unused
      rw [Bool.not_eq_true] at unused
      simp only [NvmKvPoolMgr.checkPoolStatus, poolStatus, default, unused, decide_false,
        Bool.or_self, Bool.false_and, Bool.false_eq_true, if_false] at used
      split_ifs at used
  · exact Or.inr all

namespace NvmKvStore

variable {store : NvmKvStore} {poolId : UInt32} {key : List UInt8}

/-- Every address tried for a key has the pool's hash in its low bits and, above them,
the slot tried. -/
def DecodesToPool (store : NvmKvStore) (poolId : UInt32) (key : List UInt8) : Prop :=
  ∀ i, i < maxCollision →
    store.probeLba poolId key i &&& store.poolMask = store.poolIdHash poolId ∧
      store.probeLba poolId key i / 2 ^ store.poolBits * 2 ^ store.poolBits =
        store.probeSlot poolId key i * 2 ^ store.valueBits

/-- The hash of an accepted pool id has no more bits than the mask, unless the id stands
for all pools and is not hashed. -/
theorem poolIdHash_narrow (known : poolId.toNat < store.maxPools ∨ poolId = poolIdAll)
    (told : poolId ≠ poolIdAll ∨ store.poolsHashed) :
    store.poolIdHash poolId < 2 ^ store.poolBits := by
  by_cases hashed : store.poolsHashed
  · rw [poolIdHash, if_pos hashed]
    exact NvmKvHashFunc.keyHash_lt _ _ _
  · exact poolIdHash_lt (known.resolve_right (told.resolve_right hashed))

/-- Where ids are not hashed, the id that stands for all pools has all of its bits set. -/
theorem poolIdHash_all (unhashed : ¬store.poolsHashed) :
    store.poolIdHash poolIdAll = 2 ^ 32 - 1 := by
  rw [poolIdHash, if_neg unhashed]
  rfl

/-- A narrow hash is what the mask leaves of an address. -/
theorem decodes_of_narrow (narrow : store.poolIdHash poolId < 2 ^ store.poolBits)
    (nonempty : key ≠ []) : store.DecodesToPool poolId key := by
  intro i probed
  have offsets := Nat.two_pow_pos store.poolBits
  have whole : store.probeSlot poolId key i * 2 ^ store.valueBits =
      2 ^ store.poolBits * (2 * store.probeSlot poolId key i) := by
    rw [slot_halves, Nat.mul_left_comm, Nat.mul_comm _ (2 ^ store.poolBits), Nat.mul_left_comm]
  rw [probeLba_add (narrow.trans poolBits_lt) nonempty probed, whole]
  constructor
  · rw [poolMask, Nat.and_two_pow_sub_one_eq_mod, Nat.mul_add_mod, Nat.mod_eq_of_lt narrow]
  · rw [Nat.mul_add_div offsets, Nat.div_eq_of_lt narrow, Nat.add_zero, Nat.mul_comm]

/-- The addresses of a key tell every id the store has room for, and the one that stands for all
pools where ids are hashed: otherwise its hash has all of its bits, and what the mask leaves of an
address has fewer. -/
theorem decodes_iff_told (known : poolId.toNat < store.maxPools ∨ poolId = poolIdAll)
    (nonempty : key ≠ []) :
    store.DecodesToPool poolId key ↔ poolId ≠ poolIdAll ∨ store.poolsHashed := by
  constructor
  · intro decodes
    by_contra neither
    obtain ⟨all, unhashed⟩ := not_or.mp neither
    rw [not_not] at all
    subst all
    have first := (decodes 0 (by decide)).1
    have low : store.probeLba poolIdAll key 0 &&& store.poolMask ≤ store.poolMask :=
      Nat.and_le_right
    have narrow := @poolBits_lt store
    obtain ⟨_, _, upper⟩ := store.sector_value_bits
    have sectors : 2 ^ store.valueBits ≤ 2 ^ 12 := Nat.pow_le_pow_right (by decide) upper
    have mask : store.poolMask = 2 ^ store.poolBits - 1 := rfl
    rw [poolIdHash_all unhashed] at first
    omega
  · intro told
    exact decodes_of_narrow (poolIdHash_narrow known told) nonempty

/-- A call on a pair that has validated its pool and its key tries addresses that tell the pool,
when the shared bitmaps are those of a manager. -/
theorem decodes_of_validated {ι : Type} {thread : ι} {state after : StoreState ι}
    {mgr : NvmKvPoolMgr} {pending : Nat → Bool} (books : Bookkeeping store mgr pending)
    (inUse : state.inUse = bitmapTest mgr.inUse) (deleted : state.deleted = bitmapTest mgr.deleted)
    (validated : (kvValidatePoolId poolId).run (answer store thread) state = some (true, after))
    (keyAccepted : kvValidateKey key = true) :
    store.DecodesToPool poolId key ↔ poolId ≠ poolIdAll ∨ store.poolsHashed := by
  have nonempty : key ≠ [] := List.length_pos_iff.mp (of_decide_eq_true keyAccepted).1
  rw [run_kvValidatePoolId_mgr poolId inUse deleted, Option.some.injEq, Prod.mk.injEq] at validated
  exact decodes_iff_told (books.validated validated.1) nonempty

/-- The addresses of a key tell the pool for every accepted id but the one that stands
for all pools, and for that one where ids are hashed. -/
theorem decodes_to_pool_iff (store : NvmKvStore) (mgr : NvmKvPoolMgr) (pending : Nat → Bool)
    (poolId : UInt32) (key : List UInt8) (books : Bookkeeping store mgr pending)
    (pool_accepted : mgr.validates poolId = true) (key_accepted : kvValidateKey key = true) :
    store.DecodesToPool poolId key ↔ poolId ≠ poolIdAll ∨ store.poolsHashed := by
  have nonempty : key ≠ [] := List.length_pos_iff.mp (of_decide_eq_true key_accepted).1
  exact decodes_iff_told (books.validated pool_accepted) nonempty

/-- The key `a` of the default pool in a store just created. -/
theorem decodes_to_default_pool : terabyteStore.DecodesToPool 0 [97] :=
  (decodes_to_pool_iff terabyteStore (.created fun _ => .zero) (fun _ => false) 0 [97]
    (.created _ _) (by decide) (by decide)).mpr (Or.inl (by decide))

/-- In the same store a pair put for all pools lies in another slot than its key's, at an
address that tells the last pool. -/
theorem all_pools_not_told :
    (terabyteStore.probeLba poolIdAll [97] 0 &&& terabyteStore.poolMask = 2047 ∧
      terabyteStore.poolIdHash poolIdAll = 4294967295) ∧
    ¬∀ (store : NvmKvStore) (mgr : NvmKvPoolMgr) (pending : Nat → Bool) (poolId : UInt32)
      (key : List UInt8), Bookkeeping store mgr pending → mgr.validates poolId = true →
        kvValidateKey key = true → store.DecodesToPool poolId key := by
  have mask : terabyteStore.probeLba poolIdAll [97] 0 &&& terabyteStore.poolMask = 2047 := by
    decide +kernel
  have hash : terabyteStore.poolIdHash poolIdAll = 4294967295 := by decide +kernel
  refine ⟨⟨mask, hash⟩, ?_⟩
  intro decodes
  have first := (decodes terabyteStore (.created fun _ => .zero) (fun _ => false) poolIdAll [97]
    (.created _ _) (by decide) (by decide) 0 (by decide)).1
  rw [mask, hash] at first
  exact absurd first (by decide)

end NvmKvStore

end Nvmkv
