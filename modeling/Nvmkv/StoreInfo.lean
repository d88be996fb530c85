import Nvmkv.MapListing
import Nvmkv.StoreOpening

/-!
# The information on a store

`kv_get_store_info` copies what the metadata says of a store and asks the device for its
free space. The number of keys is counted: `count_ranges` goes over the mapped ranges of
the data area in portions, without a filter, until a portion is empty.

The count is a signed number and may be an error code. It is stored as the number of keys
without a look at its sign. Where it succeeds it is the number of mapped ranges, whatever
the size of the portions is; in a pool that its user keeps tidy that is the number of keys.
-/

namespace Nvmkv

variable {ι : Type}

/-- What the device tells of its sectors (`nvm_capacity_t`). -/
structure NvmCapacity where
  totalPhysCapacity : Nat
  usedPhysCapacity : Nat

/-- The information on a store (`nvm_kv_store_info_t`). -/
structure NvmKvStoreInfo where
  version : UInt32
  numPools : UInt32
  maxPools : UInt32
  expiryMode : UInt32
  globalExpiry : UInt32
  cacheSize : Nat
  numKeys : Nat
  freeSpace : Nat

/-- The loop of `count_ranges`. Every portion that is not empty takes a sector at least off
what is left to iterate over, which bounds the rounds. -/
def countRangesLoop (iter : LogicalIterRanges) :
    (fuel : Nat) → NvmBlockRange → (numRanges : Nat) → SystemM (Except NvmErrorCode Nat)
  | 0, _, _ => liftStore neverReturns
  | fuel + 1, search, numRanges => do
      match ← nvmLogicalRanges search iter.nvmMaxNumLogicalIterRanges 0 0 with
      | none => pure (.error .internalFailure)
      | some (found, left) =>
          if found.length = 0 then
            pure (.ok numRanges)
          else
            countRangesLoop iter fuel left (numRanges + found.length)

/-- Count the mapped ranges (`count_ranges`). The iterator is what is allocated. -/
def countRanges (iter : LogicalIterRanges) (search : NvmBlockRange) (allocated : Bool) :
    SystemM (Except NvmErrorCode Nat) :=
  if !allocated then
    pure (.error .outOfMemory)
  else
    countRangesLoop iter (search.length + 1) search 0

/-- A count or an error code as an unsigned number of 64 bits. -/
def countAsUint64 : Except NvmErrorCode Nat → Nat
  | .ok numRanges => numRanges % 2 ^ 64
  | .error code => (code.retCode % 2 ^ 64).toNat

/-- The bytes of the table (`kv_cache_get_size`), and none without a cache. The table has fewer
entries than the size with which it was opened would pay for. -/
def kvCacheGetSize (store : NvmKvStore) : Nat :=
  if store.cacheSize = 0 then 0 else cacheEntryFootprint * 2 ^ cacheAddrBits store.cacheSize

/-- Get the information on a store (`kv_get_store_info`). The metadata may be missing, and the
device may fail to tell its capacity. -/
def kvGetStoreInfo (store : NvmKvStore) (iter : LogicalIterRanges)
    (metadata : Option NvmKvStoreMetadata) (capacity : Option NvmCapacity) (allocated : Bool) :
    SystemM (Except NvmErrorCode NvmKvStoreInfo) :=
  match metadata, capacity with
  | none, _ => pure (.error .internalFailure)
  | some _, none => pure (.error .internalFailure)
  | some metadata, some capacity => do
      let freeSpace := (capacity.totalPhysCapacity + 2 ^ 64 - capacity.usedPhysCapacity) % 2 ^ 64
      let numKeys ← countRanges iter store.usrData allocated
      pure (.ok
        { version := metadata.version
          numPools := metadata.totalNoPools
          maxPools := metadata.maxPools
          expiryMode := metadata.expiryMode
          globalExpiry := metadata.globalExpiry
          cacheSize := kvCacheGetSize store
          numKeys := countAsUint64 numKeys
          freeSpace := freeSpace * store.sectorSize % 2 ^ 64 })

section Counting

variable {store : NvmKvStore} {thread : ι}

/-- The loop counts the ranges that are left. Induction is on the rounds. An empty portion is the
last one. -/
theorem run_countRangesLoop (iter : LogicalIterRanges) {fuel : Nat} {search : NvmBlockRange}
    {state : SystemState ι} {numRanges : Nat} (enough : search.length < fuel) :
    (countRangesLoop iter fuel search numRanges).run (answerSystem store thread) state =
      some (.ok (numRanges + (state.store.media.logicalRanges search).length), state) := by
  induction fuel generalizing search numRanges with
  | zero => exact absurd enough (Nat.not_lt_zero _)
  | succ fuel inductionHypothesis =>
    obtain ⟨found, left, called⟩ : ∃ found left, state.store.media.logicalRangeIterator search
        iter.nvmMaxNumLogicalIterRanges 0 0 = (found, left) := ⟨_, _, rfl⟩
    obtain ⟨_, _, _, shorter, rest⟩ := Media.logicalRangeIterator_rest iter.positive called
    have taken : found = (state.store.media.logicalRanges search).take
        iter.nvmMaxNumLogicalIterRanges := by
      rw [← Media.filter_passesFilter_zero (state.store.media.logicalRanges search)]
      exact (Prod.mk.inj called).1.symm
    have dropped := rest state.store.media fun _ _ _ => rfl
    rw [Media.filter_passesFilter_zero, Media.filter_passesFilter_zero] at dropped
    have split : (state.store.media.logicalRanges search).length =
        found.length + (state.store.media.logicalRanges left).length := by
      rw [dropped, taken, ← List.length_append, List.take_append_drop]
    simp only [countRangesLoop, Program.run_bind, PoolIterator.run_nvmLogicalRanges, called,
      Option.bind_some]
    by_cases none : found.length = 0
    · have ended : (state.store.media.logicalRanges search).length = 0 := by
        have some := iter.positive
        rw [taken, List.length_take] at none
        omega
      rw [if_pos none, Program.run_pure, ended, Nat.add_zero]
    · have nonempty : found ≠ [] := fun empty => none (by rw [empty]; rfl)
      have less := shorter nonempty
      rw [if_neg none, inductionHypothesis (by omega), split, Nat.add_assoc]

/-- A count is the number of mapped ranges. -/
theorem run_countRanges (iter : LogicalIterRanges) (search : NvmBlockRange)
    (state : SystemState ι) :
    (countRanges iter search true).run (answerSystem store thread) state =
      some (.ok (state.store.media.logicalRanges search).length, state) := by
  simp only [countRanges, Bool.not_true, Bool.false_eq_true, if_false,
    run_countRangesLoop iter (Nat.lt_succ_self _), Nat.zero_add]

/-- The ranges of the data area can be counted with 64 bits. -/
theorem logicalRanges_usrData_lt (store : NvmKvStore) (media : Media) :
    (media.logicalRanges store.usrData).length < 2 ^ 64 := by
  have few : (media.logicalRanges store.usrData).length ≤ store.usrData.length := by
    rw [Media.logicalRanges, List.length_map]
    refine (List.length_filter_le _ _).trans ?_
    rw [List.length_range']
  have device : store.kvLen < 2 ^ 64 := Nat.pow_lt_pow_right (by decide) store.addressesFit
  have inside : store.usrData.length ≤ store.kvLen := Nat.sub_le _ _
  omega

/-- Where the calls that it needs succeed, `kv_get_store_info` reports the number of mapped ranges
as the number of keys. -/
theorem run_kvGetStoreInfo (iter : LogicalIterRanges) (metadata : NvmKvStoreMetadata)
    (capacity : NvmCapacity) (state : SystemState ι) :
    ∃ info, (kvGetStoreInfo store iter (some metadata) (some capacity) true).run
        (answerSystem store thread) state = some (.ok info, state) ∧
      info.numKeys = (state.store.media.logicalRanges store.usrData).length := by
  have count := Nat.mod_eq_of_lt (logicalRanges_usrData_lt store state.store.media)
  simp only [kvGetStoreInfo, Program.run_bind, run_countRanges, Option.bind_some,
    Program.run_pure]
  exact ⟨_, rfl, count⟩

/-- The ranges of a tidy pool can be told by the keys of its map. A key that has two ranges would be
held by two addresses. -/
theorem Tiled.keys {pool : UInt32} {sectors extents : List UInt8 → Nat} {state : StoreState ι}
    {map : PairKey → Option StoredContent} (known : pool.toNat < store.maxPools)
    (tiled : Tiled store state.media pool extents)
    (represents : Represents store (fun other => other = pool) state map)
    (sized : HasSectors store pool sectors map) :
    ∃ keys : List (List UInt8), keys.Nodup ∧ (∀ key, key ∈ keys ↔ map (pool, key) ≠ none) ∧
      keys.length = (state.media.logicalRanges store.usrData).length := by
  have pairs : ∀ range, range ∈ state.media.logicalRanges store.usrData → ∃ key,
      WholePair store state.media pool extents key range.startLba ∧
        range.length = extents key := fun range member => (tiled.mem_logicalRanges known).mp member
  choose! keyOf whole using pairs
  refine ⟨(state.media.logicalRanges store.usrData).map keyOf, ?_, ?_, by rw [List.length_map]⟩
  · rw [List.Nodup, List.pairwise_map]
    refine Media.logicalRanges_pairwise.imp_of_mem fun {first second} member other before same => ?_
    obtain ⟨pair, _⟩ := whole first member
    obtain ⟨rival, _⟩ := whole second other
    rw [same] at pair
    obtain ⟨_, _, once, _⟩ := represents.content pair
    have address := once _ pair.probed _ rival.probed pair.held rival.held
    omega
  · intro key
    rw [List.mem_map]
    constructor
    · rintro ⟨range, member, rfl⟩
      obtain ⟨content, has, _⟩ := represents.content (whole range member).1
      rw [has]
      exact Option.some_ne_none content
    · intro there
      obtain ⟨content, has⟩ := Option.ne_none_iff_exists'.mp there
      obtain ⟨lba, pair⟩ := represents.wholePair sized tiled has
      have member : ⟨lba, extents key⟩ ∈ state.media.logicalRanges store.usrData :=
        (tiled.mem_logicalRanges known).mpr ⟨key, pair, rfl⟩
      have own := (whole ⟨lba, extents key⟩ member).1
      exact ⟨⟨lba, extents key⟩, member, key_of_holds pair.held own.held⟩

end Counting

/-- The number of keys that is reported for a tidy pool is right: from an empty store on, after
every run of puts, lookups and deletes, it is the number of the keys that have a value. -/
theorem store_info_counts_keys (store : NvmKvStore) (iter : LogicalIterRanges) (thread : ι)
    (pool : UInt32) (sectors extents : List UInt8 → Nat) (keys : List UInt8 → Prop)
    (noCache : store.cacheSize = 0) (disabled : store.expiryMode = .disableExpiry)
    (limited : PowerOfTwoLimit store.capabilities)
    (vectors : 2 ≤ store.capabilities.nvmMaxNumIovs) (known : pool.toNat < store.maxPools)
    (start : StoreState ι) (state : SystemState ι) (idle : Idle start)
    (blank : ∀ l, start.media l = none) (trace : List PairEvent)
    (run : TracedRun (UserStep store thread fun call _ =>
      TidyCall store pool sectors extents keys call) start trace state.store)
    (metadata : NvmKvStoreMetadata) (capacity : NvmCapacity) :
    ∃ (info : NvmKvStoreInfo) (found : List (List UInt8)),
      (kvGetStoreInfo store iter (some metadata) (some capacity) true).run
        (answerSystem store thread) state = some (.ok info, state) ∧
      found.Nodup ∧ (∀ key, key ∈ found ↔ MapEvent.latest (pool, key) trace ≠ none) ∧
      info.numKeys = found.length := by
  obtain ⟨map, makes, tiled, represents, sized⟩ := tiled_of_run noCache disabled limited vectors
    idle blank run
  obtain ⟨info, ran, count⟩ := @run_kvGetStoreInfo ι store thread iter metadata capacity state
  obtain ⟨found, once, there, length⟩ := tiled.keys known represents sized
  refine ⟨info, found, ran, once, ?_, count.trans length.symm⟩
  intro key
  rw [there key, makes.latest]

/-- After a first put there is one key. -/
theorem store_info_counts_keys_first : ∃ (state : StoreState Unit) (info : NvmKvStoreInfo)
      (found : List (List UInt8)),
    (kvGetStoreInfo NvmKvStore.terabyteStore ⟨2, by decide⟩
        (some (OpenArguments.newMetadata ⟨3, 0, 4, 0⟩)) (some ⟨2 ^ 31, 1⟩) true).run
        (answerSystem NvmKvStore.terabyteStore ()) { copiesState false with store := state } =
          some (.ok info, { copiesState false with store := state }) ∧
      [97] ∈ found ∧ info.numKeys = found.length := by
  obtain ⟨state, run, _⟩ := @firstKey_stored [97]
    (fun call _ => TidyCall NvmKvStore.terabyteStore 0 (fun _ => 1) (fun _ => 1)
      (fun key => key = [97]) call) (by decide) ⟨_, rfl⟩ sectorKey_tidy
  obtain ⟨info, found, ran, _, there, count⟩ := store_info_counts_keys NvmKvStore.terabyteStore
    ⟨2, by decide⟩ () 0 (fun _ => 1) (fun _ => 1) (fun key => key = [97]) rfl rfl
    ⟨⟨10, by decide⟩, by decide⟩ (by decide) (by decide) _
    { copiesState false with store := state } (fun _ => rfl) (fun _ => rfl) _ run
    (OpenArguments.newMetadata ⟨3, 0, 4, 0⟩) ⟨2 ^ 31, 1⟩
  exact ⟨state, info, found, ran, (there [97]).mpr (by decide), count⟩

end Nvmkv
