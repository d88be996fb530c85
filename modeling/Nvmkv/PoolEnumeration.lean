import Mathlib.Data.Finset.Card
import Nvmkv.PoolTags

/-!
# Listing the pools of a store

`kv_get_pool_metadata` (`kv_store_mgr.cpp`) reports ids and tags of pools from a given id
on. Its loop runs over ids and ends with the number of pools, so it reports the ids from
the given one up to that number. These are the pools in use when the ids in use have no
gap. A pool deleted below others makes one, and then the list lacks pools at its end; when
the smallest id in use is above the number of pools it is empty.
-/

namespace Nvmkv

/-- One element of the list (`nvm_kv_pool_metadata_t`). -/
structure NvmKvPoolMetadata where
  poolId : UInt32
  poolTag : NvmKvPoolTag
  deriving DecidableEq

namespace NvmKvPoolMgr

/-- What is reported of an id. -/
def poolMetadata (mgr : NvmKvPoolMgr) (poolId : UInt32) : NvmKvPoolMetadata :=
  ⟨poolId, mgr.getPoolTag poolId.toNat⟩

/-- The loop over the ids from `poolId` on, with `count` elements of memory left. -/
def poolMetadataLoop (mgr : NvmKvPoolMgr) (numPools : Int) :
    (count : Nat) → (poolId : Int) → List NvmKvPoolMetadata
  | 0, _ => []
  | count + 1, poolId =>
      if poolId ≤ numPools then
        mgr.poolMetadata (.ofBitVec (.ofInt 32 poolId)) ::
          poolMetadataLoop mgr numPools count (poolId + 1)
      else []

/-- List the pools from `startCount` on (`kv_get_pool_metadata`). The default pool has no
tag and is not counted. -/
def kvGetPoolMetadata (mgr : NvmKvPoolMgr) (poolMdGiven : Bool) (count startCount : UInt32) :
    Except NvmErrorCode (List NvmKvPoolMetadata) :=
  if poolMdGiven = false then
    .error .invalidInput
  else if startCount = defaultPoolId then
    .error .invalidInput
  else if mgr.checkPoolStatus startCount ≠ .poolInUse ∧ startCount ≠ poolIdAll then
    .error .invalidInput
  else
    .ok (mgr.poolMetadataLoop (mgr.totalNoPools - 1).toBitVec.toInt count.toNat
      startCount.toBitVec.toInt)

/-- The loop reports the ids up to the number of pools, one after the other. By induction
on the memory left. -/
theorem poolMetadataLoop_eq (mgr : NvmKvPoolMgr) (numPools : Nat) {count poolId : Nat}
    (enough : numPools + 1 - poolId ≤ count) :
    mgr.poolMetadataLoop numPools count poolId =
      (List.range' poolId (numPools + 1 - poolId)).map fun i =>
        mgr.poolMetadata (UInt32.ofNat i) := by
  induction count generalizing poolId with
  | zero =>
    have none : numPools + 1 - poolId = 0 := Nat.le_zero.mp enough
    rw [none]
    rfl
  | succ count inductionHypothesis =>
    rw [poolMetadataLoop]
    by_cases listed : (poolId : Int) ≤ numPools
    · have more : numPools + 1 - poolId = numPools + 1 - (poolId + 1) + 1 := by omega
      rw [if_pos listed, more, List.range'_succ, List.map_cons]
      have further := @inductionHypothesis (poolId + 1) (by omega)
      rw [Int.natCast_add, Int.natCast_one] at further
      rw [further]
      congr 1
    · have none : numPools + 1 - poolId = 0 := by omega
      rw [if_neg listed, none]
      rfl

end NvmKvPoolMgr

/-- A list of every pool of a user in use, with its tag, once, and of nothing else. -/
def ListsPools (mgr : NvmKvPoolMgr) (reported : List NvmKvPoolMetadata) : Prop :=
  reported.Nodup ∧ ∀ entry, entry ∈ reported ↔
    ∃ i, 0 < i ∧ bitmapTest mgr.inUse i = true ∧ entry = ⟨UInt32.ofNat i, mgr.poolTags i⟩

/-- The ids in use have no gap. -/
def Gapless (mgr : NvmKvPoolMgr) : Prop :=
  ∀ i j, bitmapTest mgr.inUse i = true → j < i → bitmapTest mgr.inUse j = true

section Listing

variable {store : NvmKvStore} {mgr : NvmKvPoolMgr} {pending : Nat → Bool}

/-- Ids in use without a gap are below their number, since all ids below one of them are
counted with it. -/
theorem Bookkeeping.below_of_gapless (books : Bookkeeping store mgr pending)
    (gapless : Gapless mgr) {i : Nat} (used : bitmapTest mgr.inUse i = true) :
    i < mgr.totalNoPools.toNat := by
  have subset : Finset.range (i + 1) ⊆
      (Finset.range store.maxPools).filter fun j => bitmapTest mgr.inUse j = true := by
    intro j member
    have small : j ≤ i := Nat.lt_succ_iff.mp (Finset.mem_range.mp member)
    have usedToo : bitmapTest mgr.inUse j = true := by
      rcases Nat.lt_or_eq_of_le small with less | same
      · exact gapless i j used less
      · rwa [same]
    exact Finset.mem_filter.mpr
      ⟨Finset.mem_range.mpr (books.inUseBounded j usedToo), usedToo⟩
  have many := Finset.card_le_card subset
  rw [Finset.card_range] at many
  rw [books.counted]
  exact many

/-- Ids in use that are all below their number are the ids below it. -/
theorem Bookkeeping.inUse_iff_of_below (books : Bookkeeping store mgr pending)
    (below : ∀ i, bitmapTest mgr.inUse i = true → i < mgr.totalNoPools.toNat) (i : Nat) :
    bitmapTest mgr.inUse i = true ↔ i < mgr.totalNoPools.toNat := by
  refine ⟨below i, ?_⟩
  intro small
  have subset : (Finset.range store.maxPools).filter (fun j => bitmapTest mgr.inUse j = true) ⊆
      Finset.range mgr.totalNoPools.toNat := by
    intro j member
    exact Finset.mem_range.mpr (below j (Finset.mem_filter.mp member).2)
  have same := Finset.eq_of_subset_of_card_le subset (by
    rw [Finset.card_range, books.counted]
    rfl)
  have member : i ∈ (Finset.range store.maxPools).filter
      fun j => bitmapTest mgr.inUse j = true := by
    rw [same]
    exact Finset.mem_range.mpr small
  exact (Finset.mem_filter.mp member).2

/-- What is reported of a live pool is its tag. -/
theorem Bookkeeping.poolMetadata_live (books : Bookkeeping store mgr pending) {i : Nat}
    (positive : 0 < i) (live : mgr.Live i) :
    mgr.poolMetadata (UInt32.ofNat i) = ⟨UInt32.ofNat i, mgr.poolTags i⟩ := by
  have bounded : i < nvmKvMaxPools :=
    Nat.lt_of_lt_of_le (books.inUseBounded i live.1) store.poolsBounded
  have limit : nvmKvMaxPools = 1048576 := rfl
  have id : (UInt32.ofNat i).toNat = i :=
    UInt32.toNat_ofNat_of_lt' ((limit ▸ bounded).trans (by decide))
  have status : mgr.checkPoolStatus (UInt32.ofNat i) = .poolInUse :=
    (poolStatus_live positive bounded).mpr live
  rw [NvmKvPoolMgr.poolMetadata, id, NvmKvPoolMgr.getPoolTag, if_pos status]

/-- Asked to list from a live pool of a user on, with memory for all pools, the call
reports the ids from that pool on that are below the number of pools. -/
theorem Bookkeeping.kvGetPoolMetadata_eq (books : Bookkeeping store mgr pending)
    {count startCount : UInt32} (enough : store.maxPools ≤ count.toNat)
    (user : startCount ≠ defaultPoolId) (live : mgr.Live startCount.toNat) :
    mgr.kvGetPoolMetadata true count startCount =
      .ok ((List.range' startCount.toNat (mgr.totalNoPools.toNat - startCount.toNat)).map
        fun i => mgr.poolMetadata (UInt32.ofNat i)) := by
  have limit : nvmKvMaxPools = 1048576 := rfl
  have pools : store.maxPools ≤ nvmKvMaxPools := store.poolsBounded
  have positive : 0 < startCount.toNat :=
    Nat.pos_of_ne_zero fun zero => user (UInt32.toNat_inj.mp zero)
  have bounded := books.inUseBounded _ live.1
  have status : mgr.checkPoolStatus startCount = .poolInUse := by
    have given := (poolStatus_live positive (Nat.lt_of_lt_of_le bounded pools)).mpr live
    rwa [UInt32.ofNat_toNat] at given
  have some : 0 < mgr.totalNoPools.toNat := by
    rw [books.counted]
    exact Finset.card_pos.mpr ⟨0, Finset.mem_filter.mpr
      ⟨Finset.mem_range.mpr store.poolsPositive, books.defaultInUse⟩⟩
  have few : mgr.totalNoPools.toNat ≤ store.maxPools := by
    rw [books.counted]
    exact countBits_le _ _
  have down := totalNoPools_pred mgr.totalNoPools some
  have numPools : (mgr.totalNoPools - 1).toBitVec.toInt =
      ((mgr.totalNoPools.toNat - 1 : Nat) : Int) := by
    rw [BitVec.toInt_eq_toNat_of_lt]
    · change ((mgr.totalNoPools - 1).toNat : Int) = _
      congr 1
      omega
    · change 2 * (mgr.totalNoPools - 1).toNat < _
      omega
  have start : startCount.toBitVec.toInt = (startCount.toNat : Int) := by
    rw [BitVec.toInt_eq_toNat_of_lt]
    · rfl
    · change 2 * startCount.toNat < _
      omega
  rw [NvmKvPoolMgr.kvGetPoolMetadata, if_neg (by decide), if_neg user,
    if_neg (fun refused => refused.1 status), numPools, start,
    NvmKvPoolMgr.poolMetadataLoop_eq _ _ (by omega)]
  have length : mgr.totalNoPools.toNat - 1 + 1 - startCount.toNat =
      mgr.totalNoPools.toNat - startCount.toNat := by omega
  rw [length]

/-- Different ids below the limit are different as numbers of 32 bits. -/
theorem Bookkeeping.id_injective (books : Bookkeeping store mgr pending) {i j : Nat}
    (here : bitmapTest mgr.inUse i = true) (there : j < store.maxPools)
    (same : UInt32.ofNat i = UInt32.ofNat j) : i = j := by
  have limit : nvmKvMaxPools = 1048576 := rfl
  have pools : store.maxPools ≤ nvmKvMaxPools := store.poolsBounded
  have bounded := books.inUseBounded i here
  have numbers := congrArg UInt32.toNat same
  rwa [UInt32.toNat_ofNat_of_lt' (by rw [UInt32.size]; omega),
    UInt32.toNat_ofNat_of_lt' (by rw [UInt32.size]; omega)] at numbers

/-- In every state that creations and deletions reach, once the deletions are completed:
the list from the smallest id of a user on is complete exactly when the ids in use have no
gap. -/
theorem pool_list_complete_iff {state : PoolState}
    (reached : PoolState.Reached store (fun _ => True) state)
    (completed : ∀ i, bitmapTest state.mgr.deleted i = false) {count startCount : UInt32}
    (enough : store.maxPools ≤ count.toNat) (user : startCount ≠ defaultPoolId)
    (used : bitmapTest state.mgr.inUse startCount.toNat = true)
    (least : ∀ i, 0 < i → bitmapTest state.mgr.inUse i = true → startCount.toNat ≤ i) :
    (∃ reported, state.mgr.kvGetPoolMetadata true count startCount = .ok reported ∧
        ListsPools state.mgr reported) ↔ Gapless state.mgr := by
  have books := Bookkeeping.reached reached
  have positive : 0 < startCount.toNat :=
    Nat.pos_of_ne_zero fun zero => user (UInt32.toNat_inj.mp zero)
  have few : state.mgr.totalNoPools.toNat ≤ store.maxPools := by
    rw [books.counted]
    exact countBits_le _ _
  rw [books.kvGetPoolMetadata_eq enough user ⟨used, completed _⟩]
  constructor
  · rintro ⟨reported, returned, _, complete⟩ i j usedHere smaller
    cases returned
    have below : ∀ i, bitmapTest state.mgr.inUse i = true → i < state.mgr.totalNoPools.toNat := by
      intro i usedHere
      rcases Nat.eq_zero_or_pos i with default | above
      · subst default
        rw [books.counted]
        exact Finset.card_pos.mpr ⟨0, Finset.mem_filter.mpr
          ⟨Finset.mem_range.mpr store.poolsPositive, books.defaultInUse⟩⟩
      · obtain ⟨listed, member, same⟩ :=
          List.mem_map.mp ((complete _).mpr ⟨i, above, usedHere, rfl⟩)
        rw [List.mem_range'_1] at member
        have ids : UInt32.ofNat i = UInt32.ofNat listed :=
          (congrArg NvmKvPoolMetadata.poolId same).symm
        rw [books.id_injective usedHere (by omega) ids]
        omega
    have exactly := books.inUse_iff_of_below below
    exact (exactly j).mpr (Nat.lt_trans smaller ((exactly i).mp usedHere))
  · intro gapless
    have exactly := books.inUse_iff_of_below fun i => books.below_of_gapless gapless
    have several := (exactly _).mp used
    have first : startCount.toNat = 1 := by
      have one := least 1 Nat.one_pos ((exactly 1).mpr (by omega))
      omega
    refine ⟨_, rfl, ?_, ?_⟩
    · refine List.Nodup.map_on ?_ List.nodup_range'
      intro i member j other same
      rw [List.mem_range'_1] at member other
      exact books.id_injective ((exactly i).mpr (by omega)) (by omega)
        (congrArg NvmKvPoolMetadata.poolId same)
    · intro entry
      rw [List.mem_map]
      constructor
      · rintro ⟨i, member, same⟩
        rw [List.mem_range'_1] at member
        have usedHere := (exactly i).mpr (by omega)
        refine ⟨i, by omega, usedHere, ?_⟩
        rw [← same, books.poolMetadata_live (by omega) ⟨usedHere, completed i⟩]
      · rintro ⟨i, above, usedHere, same⟩
        refine ⟨i, ?_, ?_⟩
        · have small := (exactly i).mp usedHere
          rw [List.mem_range'_1]
          omega
        · rw [same, books.poolMetadata_live above ⟨usedHere, completed i⟩]

end Listing

/-- The ids in use when the first of two pools was deleted and its id given anew. -/
theorem reused_inUse (i : Nat) :
    bitmapTest (bitmapSet (bitmapClear (bitmapSet (bitmapSet (bitmapSet .zero 0) 1) 2) 1) 1) i =
      true ↔ i < 3 := by
  simp only [bitmapTest_clear, bitmapTest_set, bitmapTest_zero, Bool.or_false, Bool.or_eq_true,
    Bool.and_eq_true, Bool.not_eq_true', decide_eq_true_eq, decide_eq_false_iff_not]
  omega

/-- Two pools are created, the first of them is deleted, and a third one takes its id. Both
pools in use are listed from that id on. -/
theorem pool_list_complete_reused : ∃ state : PoolState,
    PoolState.Reached NvmKvStore.terabyteStore (fun _ => True) state ∧
      state.mgr.poolTags 1 = letterTag 99 ∧ state.mgr.poolTags 2 = letterTag 98 ∧
      ∃ reported, state.mgr.kvGetPoolMetadata true 4 1 = .ok reported ∧
        ListsPools state.mgr reported := by
  have new : PoolState.Reached NvmKvStore.terabyteStore (fun _ => True) (newPools .zero) :=
    .created _ _
  have first := @PoolState.Reached.step _ _ true _ _ new trivial (.create (some (letterTag 97)) rfl)
  have second := @PoolState.Reached.step _ _ true _ _ first trivial
    (.create (some (letterTag 98)) rfl)
  have marked := @PoolState.Reached.step _ _ true _ _ second trivial (.delete 1 rfl)
  have copied := @PoolState.Reached.step _ _ true _ _ marked trivial (.snapshot rfl)
  have cleared := @PoolState.Reached.step _ _ true _ _ copied trivial
    (.clearId 1 rfl (by decide +kernel))
  have again := @PoolState.Reached.step _ _ true _ _ cleared trivial
    (.create (some (letterTag 99)) rfl)
  refine ⟨_, again, by decide +kernel, by decide +kernel, ?_⟩
  refine (pool_list_complete_iff again ?_ (by decide) (by decide) (by decide +kernel) ?_).mpr ?_
  · intro i
    change bitmapTest (bitmapClear (bitmapSet .zero 1) 1) i = false
    simp [bitmapTest_clear, bitmapTest_set]
  · exact fun i positive _ => positive
  · intro i j used less
    exact (reused_inUse j).mpr (less.trans ((reused_inUse i).mp used))

/-- Two pools are created and the first of them is deleted. The second one is left out of
the list that starts with it. -/
theorem pool_left_out :
    ¬ ∀ (store : NvmKvStore) (state : PoolState), PoolState.Reached store (· = true) state →
      (∀ i, bitmapTest state.mgr.deleted i = false) → ∀ count startCount : UInt32,
        store.maxPools ≤ count.toNat → startCount ≠ defaultPoolId →
          bitmapTest state.mgr.inUse startCount.toNat = true →
            (∀ i, 0 < i → bitmapTest state.mgr.inUse i = true → startCount.toNat ≤ i) →
              ∃ reported, state.mgr.kvGetPoolMetadata true count startCount = .ok reported ∧
                ListsPools state.mgr reported := by
  intro promised
  have new : PoolState.Reached NvmKvStore.terabyteStore (· = true) (newPools .zero) :=
    .created _ _
  have first := new.step rfl (.create (some (letterTag 97)) rfl)
  have second := first.step rfl (.create (some (letterTag 98)) rfl)
  have marked := second.step rfl (.delete 1 rfl)
  have copied := marked.step rfl (.snapshot rfl)
  have cleared := copied.step rfl (.clearId 1 rfl (by decide +kernel))
  obtain ⟨reported, returned, _, complete⟩ := promised _ _ cleared (by
    intro i
    change bitmapTest (bitmapClear (bitmapSet .zero 1) 1) i = false
    simp [bitmapTest_clear, bitmapTest_set]) 4 2 (by decide) (by decide) (by decide +kernel) (by
      intro i positive used
      change bitmapTest (bitmapClear (bitmapSet (bitmapSet (bitmapSet .zero 0) 1) 2) 1) i = true
        at used
      simp [bitmapTest_clear, bitmapTest_set] at used
      change 2 ≤ i
      omega)
  change Except.ok [] = Except.ok reported at returned
  cases returned
  have listed := (complete ⟨2, letterTag 98⟩).mpr ⟨2, by decide, by decide +kernel, rfl⟩
  cases listed

end Nvmkv
