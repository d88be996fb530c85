import Nvmkv.PoolDeletionScan
import Nvmkv.PoolRestart

/-!
# When pool deletion completes

A run of `start_pool_delete` alone, on a store in which every mapped range of the
data area is one pair. Whatever the sizes of portions and batches, the pairs of
the pools of the snapshot are trimmed and no other sector changes. The pools are
cleared only if the scan returned zero, and a scan that has done all its work can
return a number of ranges or the verdict on a skipped pair instead: then the
deletion stops with the marks in place.

`Remaining` describes the device between two scans by the ranges it started with.
-/

namespace Nvmkv

variable {ι : Type} (store : NvmKvStore)

/-- The pool of the pair in a range. -/
def rangePool (media : Media) (range : NvmBlockRange) : Nat :=
    (rangeHeader store media range).poolId

/-- Every mapped range of the data area is one pair: it starts with the header of
a key, of a pool in use, at an address with the pool's offset, and one vector can
trim it. -/
structure PairsInRanges (state : SystemState ι) : Prop where
  isKey : ∀ range ∈ state.store.media.logicalRanges store.usrData,
    (rangeHeader store state.store.media range).isKey = true
  inUse : ∀ range ∈ state.store.media.logicalRanges store.usrData,
    bitmapTest state.mgr.inUse (rangePool store state.store.media range) = true
  placed : ∀ range ∈ state.store.media.logicalRanges store.usrData,
    range.startLba &&& store.poolMask =
      store.poolIdHash (UInt32.ofNat (rangePool store state.store.media range))
  small : ∀ range ∈ state.store.media.logicalRanges store.usrData,
    range.length * store.sectorSize ≤ store.capabilities.maxTrimSize

/-- The pools are cleared in both bitmaps, their pairs are gone and all other pairs
remain as they were. -/
structure PoolsDeleted (poolsToDelete : KvBitmap) (before after : SystemState ι) : Prop where
  cleared : ∀ i, bitmapTest poolsToDelete i = true →
    bitmapTest after.mgr.inUse i = false ∧ bitmapTest after.mgr.deleted i = false
  trimmed : ∀ range ∈ before.store.media.logicalRanges store.usrData,
    bitmapTest poolsToDelete (rangePool store before.store.media range) = true →
      ∀ l, range.Covers l → after.store.media l = none
  gone : ∀ range ∈ after.store.media.logicalRanges store.usrData,
    bitmapTest poolsToDelete (rangePool store after.store.media range) = false
  remains : ∀ range ∈ before.store.media.logicalRanges store.usrData,
    bitmapTest poolsToDelete (rangePool store before.store.media range) = false →
      range ∈ after.store.media.logicalRanges store.usrData ∧
        ∀ l, range.Covers l → after.store.media l = before.store.media l

/-- Whether a range is of a pool of the snapshot below some pool id. -/
def deletedBelow (poolsToDelete : KvBitmap) (pool : NvmBlockRange → Nat) (poolId : Nat)
    (range : NvmBlockRange) : Bool :=
  bitmapTest poolsToDelete (pool range) && decide (pool range < poolId)

/-- The ranges that the device returns to the scan for a pool of the snapshot: those
of the pools below it are gone by then. -/
def rangesLeft (media : Media) (poolsToDelete : KvBitmap) (poolId : Nat) : List NvmBlockRange :=
  (scanRanges store media (some poolId)).filter fun range =>
    !deletedBelow poolsToDelete (rangePool store media) poolId range

/-- Some scan of a deletion stops short. -/
def SomeScanStopsShort (iter : LogicalIterRanges) (media : Media) (clock : Nat)
    (poolsToDelete : KvBitmap) (deleteAllPools : Bool) : Prop :=
  if deleteAllPools then
    StopsShort store iter (rangeHeader store media) clock none (scanRanges store media none)
  else
    ∃ i, bitmapTest poolsToDelete i = true ∧
      StopsShort store iter (rangeHeader store media) clock (some i)
        (rangesLeft store media poolsToDelete i)

/-- A device on which some ranges of another one were trimmed. -/
structure Remaining (base media : Media) (gone : NvmBlockRange → Bool) : Prop where
  trimmed : ∀ range ∈ base.logicalRanges store.usrData, gone range = true →
    ∀ l, range.Covers l → media l = none
  kept : ∀ l, (∀ range ∈ base.logicalRanges store.usrData, gone range = true →
    ¬range.Covers l) → media l = base l

namespace Remaining

variable {store} {base media : Media} {gone other : NvmBlockRange → Bool}

/-- Before the thread trims, all ranges remain. -/
theorem start : Remaining store base base fun _ => false :=
  ⟨fun _ _ impossible => Bool.noConfusion impossible, fun _ _ => rfl⟩

/-- What remains depends on which of the ranges are gone. -/
theorem congr (remaining : Remaining store base media gone)
    (same : ∀ range ∈ base.logicalRanges store.usrData, gone range = other range) :
    Remaining store base media other where
  trimmed := fun range member removed =>
    remaining.trimmed range member ((same range member).trans removed)
  kept := fun l outside => remaining.kept l fun range member removed =>
    outside range member ((same range member).symm.trans removed)

/-- The ranges that are left are the ranges of the device. -/
theorem logicalRanges (remaining : Remaining store base media gone) :
    media.logicalRanges store.usrData =
      (base.logicalRanges store.usrData).filter fun range => !gone range := by
  apply Media.logicalRanges_trimmed
  constructor
  · intro range member leaves
    rw [Bool.not_eq_false'] at leaves
    exact remaining.trimmed range member leaves
  · intro l _ _ outside
    refine remaining.kept l fun range member removed => outside range member ?_
    rw [removed]
    rfl

/-- A range that is left has its sectors. -/
theorem same (remaining : Remaining store base media gone) {range : NvmBlockRange}
    (member : range ∈ base.logicalRanges store.usrData) (left : gone range = false) {l : Nat}
    (covered : range.Covers l) : media l = base l := by
  refine remaining.kept l fun rival listed removed shared => ?_
  rw [Media.logicalRanges_unique member listed covered shared, removed] at left
  exact Bool.noConfusion left

/-- The header of a range that remains is the one that it had. -/
theorem header (remaining : Remaining store base media gone) {range : NvmBlockRange}
    (member : range ∈ base.logicalRanges store.usrData) (left : gone range = false) :
    rangeHeader store media range = rangeHeader store base range := by
  refine storedHeader_congr (remaining.same member left ⟨Nat.le_refl _, ?_⟩)
  exact Nat.lt_add_of_pos_right (Media.isRun_of_mem member).positive

/-- Trimming further ranges. -/
theorem trim (remaining : Remaining store base media gone) {chosen : List NvmBlockRange}
    (among : ∀ range ∈ chosen, range ∈ base.logicalRanges store.usrData)
    (union : ∀ range ∈ base.logicalRanges store.usrData,
      other range = true ↔ gone range = true ∨ range ∈ chosen) :
    Remaining store base
      (media.applyBatch store.sectorSize (chosen.map (poolRangeIovec store))) other where
  trimmed := by
    intro range member removed l covered
    by_cases now : ∃ vector ∈ chosen.map (poolRangeIovec store),
        Media.Covers store.sectorSize vector l
    · refine Media.applyBatch_trims (fun vector listed => ?_) now
      obtain ⟨_, _, rfl⟩ := List.mem_map.mp listed
      rfl
    · rw [Media.applyBatch_frame fun vector listed covers => now ⟨vector, listed, covers⟩]
      rcases (union range member).mp removed with before | selected
      · exact remaining.trimmed range member before l covered
      · exact absurd ⟨_, List.mem_map_of_mem selected,
          (poolRangeIovec_covers store).mpr covered⟩ now
  kept := by
    intro l outside
    rw [Media.applyBatch_frame, remaining.kept l]
    · exact fun range member removed =>
        outside range member ((union range member).mpr (Or.inl removed))
    · intro vector listed covers
      obtain ⟨range, selected, rfl⟩ := List.mem_map.mp listed
      have member := among range selected
      exact outside range member ((union range member).mpr (Or.inr selected))
        ((poolRangeIovec_covers store).mp covers)

end Remaining

section Pairs

variable {store} {state : SystemState ι} {pending : Nat → Bool}

/-- The pool of a pair is an id that the store has. -/
theorem PairsInRanges.poolBounded (pairs : PairsInRanges store state)
    (books : Bookkeeping store state.mgr pending) {range : NvmBlockRange}
    (member : range ∈ state.store.media.logicalRanges store.usrData) :
    rangePool store state.store.media range < store.maxPools :=
  books.inUseBounded _ (pairs.inUse range member)

/-- Without hashing, the offset of a pool is its id. -/
theorem poolIdHash_id (direct : store.validatesPoolIdOnMedia = false) {poolId : Nat}
    (bounded : poolId < store.maxPools) : store.poolIdHash (UInt32.ofNat poolId) = poolId := by
  have limit : store.maxPools ≤ 1048576 := store.poolsBounded
  have size : UInt32.size = 4294967296 := rfl
  have unhashed : ¬store.poolsHashed := of_decide_eq_false direct
  rw [NvmKvStore.poolIdHash, if_neg unhashed]
  exact UInt32.toNat_ofNat_of_lt' (by omega)

/-- The scan for all pools trims the pairs that are not of the default pool. -/
theorem PairsInRanges.scanSkips_all (pairs : PairsInRanges store state)
    (books : Bookkeeping store state.mgr pending) {range : NvmBlockRange}
    (member : range ∈ state.store.media.logicalRanges store.usrData) :
    scanSkips store (rangeHeader store state.store.media) none range = true ↔
      rangePool store state.store.media range = 0 := by
  cases validates : store.validatesPoolIdOnMedia with
  | true =>
    rw [scanSkips, validates, if_pos rfl, NvmKvStore.skipsPool, decide_eq_true_iff]
    rfl
  | false =>
    rw [scanSkips, validates, pairs.placed range member,
      poolIdHash_id validates (pairs.poolBounded books member)]
    simp [defaultPoolId]

/-- The scan for a pool trims the pairs of the pool. -/
theorem PairsInRanges.scanSkips_one (pairs : PairsInRanges store state)
    (books : Bookkeeping store state.mgr pending) {poolId : Nat} (bounded : poolId < store.maxPools)
    {range : NvmBlockRange} (member : range ∈ state.store.media.logicalRanges store.usrData) :
    (Media.passesFilter store.poolMask (store.poolIdHash (UInt32.ofNat poolId)) range = true ∧
        scanSkips store (rangeHeader store state.store.media) (some poolId) range = false) ↔
      rangePool store state.store.media range = poolId := by
  rw [Media.passesFilter, decide_eq_true_iff, pairs.placed range member]
  cases validates : store.validatesPoolIdOnMedia with
  | true =>
    rw [scanSkips, validates, if_pos rfl, NvmKvStore.skipsPool, decide_eq_false_iff_not, not_ne_iff]
    constructor
    · rintro ⟨_, same⟩
      exact same.symm
    · intro same
      exact ⟨by rw [same], same.symm⟩
  | false =>
    rw [scanSkips, validates, poolIdHash_id validates (pairs.poolBounded books member),
      poolIdHash_id validates bounded]
    simp

end Pairs

section Runs

variable {store} (thread : ι) (iter : LogicalIterRanges) (poolsToDelete : KvBitmap)

/-- The state between two scans of a deletion that goes pool by pool: the pools of
the snapshot below an id are gone from the device and from the bitmaps. -/
structure DeletedBelow (start state : SystemState ι) (poolId : Nat) : Prop where
  remaining : Remaining store start.store.media state.store.media
    (deletedBelow poolsToDelete (rangePool store start.store.media) poolId)
  cleared : ∀ i, i < poolId → bitmapTest poolsToDelete i = true →
    bitmapTest state.mgr.inUse i = false ∧ bitmapTest state.mgr.deleted i = false
  free : state.mgr.mutexHeld = false
  clock : state.store.clock = start.store.clock

/-- Clearing one pool. -/
theorem run_clearPoolBitmapOf {state : SystemState ι} (free : state.mgr.mutexHeld = false)
    (poolId : Nat) :
    (clearPoolBitmapOf poolId).run (answerSystem store thread) state =
      some (.ok (), state.managed
        (state.mgr.clearPoolBitmap store poolId true state.poolMedia).2.1
        (state.mgr.clearPoolBitmap store poolId true state.poolMedia).2.2) := by
  rw [clearPoolBitmapOf, askSystem, Program.run_perform, answerSystem, free,
    if_neg Bool.false_ne_true]
  rfl

/-- Clearing the pools of a bitmap. -/
theorem run_clearPoolBitmaps {state : SystemState ι} (free : state.mgr.mutexHeld = false) :
    (clearPoolBitmaps poolsToDelete).run (answerSystem store thread) state =
      some (.ok (), state.managed
        (state.mgr.clearPoolBitmaps store poolsToDelete true state.poolMedia).2.1
        (state.mgr.clearPoolBitmaps store poolsToDelete true state.poolMedia).2.2) := by
  rw [clearPoolBitmaps, askSystem, Program.run_perform, answerSystem, free,
    if_neg Bool.false_ne_true]
  rfl

variable {start state : SystemState ι} {pending : Nat → Bool}

/-- The ranges returned to the scan for a pool between two scans. -/
theorem DeletedBelow.scanRanges {poolId : Nat}
    (deleted : @DeletedBelow ι store poolsToDelete start state poolId) :
    scanRanges store state.store.media (some poolId) =
      rangesLeft store start.store.media poolsToDelete poolId := by
  rw [Nvmkv.scanRanges, rangesLeft, Nvmkv.scanRanges, deleted.remaining.logicalRanges,
    List.filter_filter, List.filter_filter]
  exact List.filter_congr fun _ _ => Bool.and_comm _ _

/-- A pool that is not to be deleted is passed over. -/
theorem DeletedBelow.pass {poolId : Nat}
    (deleted : @DeletedBelow ι store poolsToDelete start state poolId)
    (other : bitmapTest poolsToDelete poolId = false) :
    @DeletedBelow ι store poolsToDelete start state (poolId + 1) where
  remaining := by
    refine deleted.remaining.congr fun range _ => ?_
    rw [deletedBelow, deletedBelow]
    by_cases here : rangePool store start.store.media range = poolId
    · rw [here, other, Bool.false_and, Bool.false_and]
    · congr 1
      rw [decide_eq_decide]
      omega
  cleared := by
    intro i below chosen
    refine deleted.cleared i (Nat.lt_of_le_of_ne (Nat.le_of_lt_succ below) ?_) chosen
    intro same
    rw [same, other] at chosen
    exact Bool.noConfusion chosen
  free := deleted.free
  clock := deleted.clock

/-- The scan for the next pool trims the pairs of the pool. -/
theorem DeletedBelow.run_deletePool {poolId : Nat} (pairs : PairsInRanges store start)
    (books : Bookkeeping store start.mgr pending) (bounded : poolId < store.maxPools)
    (chosen : bitmapTest poolsToDelete poolId = true) (memory : Nat)
    (deleted : @DeletedBelow ι store poolsToDelete start state poolId) :
    ∃ (retCode : Nat) (media : Media) (log : List (ι × List NvmIovec)),
      (deletePool store iter (some poolId) memory).run (answerSystem store thread) state =
        some (.ok retCode, state.onMedia media log) ∧
      (retCode = 0 ↔ ¬StopsShort store iter (rangeHeader store start.store.media)
        start.store.clock (some poolId) (rangesLeft store start.store.media poolsToDelete poolId)) ∧
      Remaining store start.store.media media
        (deletedBelow poolsToDelete (rangePool store start.store.media) (poolId + 1)) := by
  have listed := deleted.scanRanges
  have among : ∀ range ∈ rangesLeft store start.store.media poolsToDelete poolId,
      range ∈ start.store.media.logicalRanges store.usrData ∧
        deletedBelow poolsToDelete (rangePool store start.store.media) poolId range = false := by
    intro range member
    rw [rangesLeft, Nvmkv.scanRanges, List.mem_filter, List.mem_filter, Bool.not_eq_true'] at member
    exact ⟨member.1.1, member.2⟩
  obtain ⟨retCode, log, ran, code⟩ := Nvmkv.run_deletePool store thread iter (some poolId) memory
    listed (fun range member =>
      deleted.remaining.header (among range member).1 (among range member).2)
    (fun range member => pairs.isKey range (among range member).1)
    (fun range member => pairs.small range (among range member).1)
  rw [deleted.clock] at code
  refine ⟨retCode, _, log, ran, code, deleted.remaining.trim ?_ ?_⟩
  · intro range member
    exact (among range (List.mem_of_mem_filter member)).1
  · intro range member
    rw [List.mem_filter, rangesLeft, List.mem_filter, Nvmkv.scanRanges, List.mem_filter,
      and_iff_right member, Bool.not_eq_true', Bool.not_eq_true', and_right_comm,
      if_neg (Option.some_ne_none poolId), pairs.scanSkips_one books bounded member, deletedBelow,
      deletedBelow, Bool.and_eq_true, Bool.and_eq_true, decide_eq_true_iff, decide_eq_true_iff]
    by_cases here : rangePool store start.store.media range = poolId
    · simp [here, chosen]
    · simp only [here, false_and, or_false]
      exact and_congr_right fun _ => ⟨fun below => by omega, fun below => by omega⟩

/-- Clearing the pool whose pairs are gone. -/
theorem DeletedBelow.clear {poolId : Nat} {media : Media} (log : List (ι × List NvmIovec))
    (deleted : @DeletedBelow ι store poolsToDelete start state poolId)
    (remaining : Remaining store start.store.media media
      (deletedBelow poolsToDelete (rangePool store start.store.media) (poolId + 1))) :
    @DeletedBelow ι store poolsToDelete start
      ((state.onMedia media log).managed
        (state.mgr.clearPoolBitmap store poolId true state.poolMedia).2.1
        (state.mgr.clearPoolBitmap store poolId true state.poolMedia).2.2) (poolId + 1) where
  remaining := remaining
  cleared := by
    intro i below chosen
    change bitmapTest (bitmapClear state.mgr.inUse poolId) i = false ∧
      bitmapTest (bitmapClear state.mgr.deleted poolId) i = false
    rw [bitmapTest_clear, bitmapTest_clear]
    by_cases here : i = poolId
    · simp [here]
    · have before := deleted.cleared i (by omega) chosen
      simp [before.1, before.2]
  free := deleted.free
  clock := deleted.clock

/-- The pools of the snapshot from one id on. Induction is on the number of ids
left. -/
theorem run_deletePools (pairs : PairsInRanges store start)
    (books : Bookkeeping store start.mgr pending) (memory : Nat) {poolId count : Nat}
    (bounded : poolId + count ≤ store.maxPools)
    (deleted : @DeletedBelow ι store poolsToDelete start state poolId) :
    ∃ (retCode : Nat) (after : SystemState ι),
      (deletePools store iter poolsToDelete memory (List.range' poolId count)).run
        (answerSystem store thread) state = some (.ok retCode, after) ∧
      (retCode = 0 ↔ ∀ i, poolId ≤ i → i < poolId + count → bitmapTest poolsToDelete i = true →
        ¬StopsShort store iter (rangeHeader store start.store.media) start.store.clock (some i)
          (rangesLeft store start.store.media poolsToDelete i)) ∧
      (retCode = 0 → @DeletedBelow ι store poolsToDelete start after (poolId + count)) := by
  induction count generalizing poolId state with
  | zero =>
    exact ⟨0, state, rfl, iff_of_true rfl fun i above below => absurd below (by omega),
      fun _ => deleted⟩
  | succ count inductionHypothesis =>
    have next : poolId + 1 + count ≤ store.maxPools := by omega
    have rest : poolId + (count + 1) = poolId + 1 + count := by omega
    rw [List.range'_succ, rest]
    by_cases chosen : bitmapTest poolsToDelete poolId = true
    · obtain ⟨scanCode, media, log, ran, code, remaining⟩ :=
        deleted.run_deletePool thread iter poolsToDelete pairs books (by omega) chosen memory
      by_cases completes : scanCode = 0
      · obtain ⟨retCode, after, ranRest, codeRest, finished⟩ := inductionHypothesis next
          (deleted.clear poolsToDelete log remaining)
        refine ⟨retCode, after, ?_, ?_, finished⟩
        · subst completes
          simp only [deletePools, chosen, if_true, Program.run_bind, ran, Option.bind_some,
            @run_clearPoolBitmapOf ι store thread (state.onMedia media log) deleted.free]
          exact ranRest
        · rw [codeRest]
          constructor
          · intro later i above below member
            rcases Nat.eq_or_lt_of_le above with same | further
            · rw [← same]
              exact code.mp completes
            · exact later i further below member
          · exact fun all i above below member => all i (by omega) below member
      · refine ⟨scanCode, state.onMedia media log, ?_, ?_, fun zero => absurd zero completes⟩
        · cases scanCode with
          | zero => exact absurd rfl completes
          | succ scanCode =>
            simp only [deletePools, chosen, if_true, Program.run_bind, ran, Option.bind_some,
              Program.run_pure]
        · refine iff_of_false completes fun all => completes (code.mpr ?_)
          exact all poolId (Nat.le_refl _) (by omega) chosen
    · rw [Bool.not_eq_true] at chosen
      obtain ⟨retCode, after, ran, code, finished⟩ := inductionHypothesis next
        (deleted.pass poolsToDelete chosen)
      refine ⟨retCode, after, ?_, ?_, finished⟩
      · simp only [deletePools, chosen, Bool.false_eq_true, if_false]
        exact ran
      · rw [code]
        constructor
        · intro later i above below member
          refine later i (Nat.lt_of_le_of_ne above ?_) below member
          intro same
          rw [← same, chosen] at member
          exact Bool.noConfusion member
        · exact fun all i above below member => all i (by omega) below member

/-- With the pairs of the pools of a snapshot gone from the device and their bits
clear, the pools are deleted. -/
theorem PoolsDeleted.of_remaining {after : SystemState ι} (pairs : PairsInRanges store start)
    (books : Bookkeeping store start.mgr pending)
    (remaining : Remaining store start.store.media after.store.media
      (deletedBelow poolsToDelete (rangePool store start.store.media) store.maxPools))
    (cleared : ∀ i, bitmapTest poolsToDelete i = true →
      bitmapTest after.mgr.inUse i = false ∧ bitmapTest after.mgr.deleted i = false) :
    PoolsDeleted store poolsToDelete start after := by
  have inside : ∀ range ∈ start.store.media.logicalRanges store.usrData,
      deletedBelow poolsToDelete (rangePool store start.store.media) store.maxPools range =
        bitmapTest poolsToDelete (rangePool store start.store.media range) := by
    intro range member
    rw [deletedBelow, decide_eq_true (pairs.poolBounded books member), Bool.and_true]
  refine ⟨cleared, ?_, ?_, ?_⟩
  · intro range member chosen
    exact remaining.trimmed range member ((inside range member).trans chosen)
  · intro range member
    rw [remaining.logicalRanges, List.mem_filter, Bool.not_eq_true'] at member
    rw [rangePool, remaining.header member.1 member.2]
    exact (inside range member.1).symm.trans member.2
  · intro range member other
    have left := (inside range member).trans other
    refine ⟨?_, fun l covered => remaining.same member left covered⟩
    rw [remaining.logicalRanges, List.mem_filter, left]
    exact ⟨member, rfl⟩

/-- Clearing the pools of a snapshot clears them in both bitmaps: the walk does it
in the one, and a pool is deleted only while it is in use. -/
theorem cleared_bitmaps {mgr : NvmKvPoolMgr} (books : Bookkeeping store mgr pending)
    (due : ∀ i, bitmapTest poolsToDelete i = true → pending i = true) (media : PoolMedia) {i : Nat}
    (chosen : bitmapTest poolsToDelete i = true) :
    bitmapTest (mgr.clearPoolBitmaps store poolsToDelete true media).2.1.inUse i = false ∧
      bitmapTest (mgr.clearPoolBitmaps store poolsToDelete true media).2.1.deleted i = false := by
  obtain ⟨used, positive⟩ := books.pendingInUse i (due i chosen)
  have bounded := books.inUseBounded i used
  have walked : bitmapTest (mgr.clearPoolBitmaps store poolsToDelete true media).2.1.inUse i =
      false := by
    have member : i ∈ List.range' 1 (store.maxPools - 1) := by
      rw [List.mem_range'_1]
      omega
    refine ((Mirrored.clearStep_foldl_bits poolsToDelete
      (NvmKvPoolMgr.sameBitmap store mgr.deleted poolsToDelete) _ _).2.2.1 i).trans ?_
    simp [member, chosen]
  refine ⟨walked, ?_⟩
  cases marked : bitmapTest (mgr.clearPoolBitmaps store poolsToDelete true media).2.1.deleted i with
  | false => rfl
  | true =>
    rw [(books.clearPoolBitmaps due true media).deletedInUse i marked] at walked
    exact Bool.noConfusion walked

/-- The scan for all pools leaves the pairs of the default pool, which are those of
no pool of the snapshot. -/
theorem run_deletePool_all (pairs : PairsInRanges store start)
    (books : Bookkeeping store start.mgr (bitmapTest poolsToDelete))
    (all : ∀ i, 0 < i → bitmapTest start.mgr.inUse i = true → bitmapTest poolsToDelete i = true)
    (memory : Nat) :
    ∃ (retCode : Nat) (media : Media) (log : List (ι × List NvmIovec)),
      (deletePool store iter none memory).run (answerSystem store thread) start =
        some (.ok retCode, start.onMedia media log) ∧
      (retCode = 0 ↔ ¬StopsShort store iter (rangeHeader store start.store.media)
        start.store.clock none (Nvmkv.scanRanges store start.store.media none)) ∧
      Remaining store start.store.media media
        (deletedBelow poolsToDelete (rangePool store start.store.media) store.maxPools) := by
  have among : ∀ range ∈ Nvmkv.scanRanges store start.store.media none,
      range ∈ start.store.media.logicalRanges store.usrData := by
    intro range member
    rw [Nvmkv.scanRanges] at member
    exact List.mem_of_mem_filter member
  obtain ⟨retCode, log, ran, code⟩ := Nvmkv.run_deletePool store thread iter none memory
    rfl (fun _ _ => rfl) (fun range member => pairs.isKey range (among range member))
    (fun range member => pairs.small range (among range member))
  refine ⟨retCode, _, log, ran, code, Remaining.start.trim ?_ ?_⟩
  · intro range member
    exact among range (List.mem_of_mem_filter member)
  · intro range member
    have bounded := pairs.poolBounded books member
    rw [List.mem_filter, Nvmkv.scanRanges, List.mem_filter, and_iff_right member, if_pos rfl,
      and_iff_right (Media.passesFilter_zero range), Bool.not_eq_true', ← Bool.not_eq_true,
      pairs.scanSkips_all books member, deletedBelow, decide_eq_true bounded, Bool.and_true]
    constructor
    · intro chosen
      exact Or.inr (Nat.ne_of_gt (books.pendingInUse _ chosen).2)
    · rintro (impossible | nonzero)
      · exact Bool.noConfusion impossible
      · exact all _ (Nat.pos_of_ne_zero nonzero) (pairs.inUse range member)

/-- How a deletion ends: with the pools deleted and zero returned, or with another
value when some scan stops short. -/
theorem run_startPoolDelete (deleteAllPools : Bool) (memory : Nat)
    (pairs : PairsInRanges store start)
    (books : Bookkeeping store start.mgr (bitmapTest poolsToDelete))
    (free : start.mgr.mutexHeld = false)
    (all : deleteAllPools = true → ∀ i, 0 < i → bitmapTest start.mgr.inUse i = true →
      bitmapTest poolsToDelete i = true) :
    ∃ (retCode : Nat) (after : SystemState ι),
      (startPoolDelete store iter poolsToDelete deleteAllPools memory).run
        (answerSystem store thread) start = some (.ok retCode, after) ∧
      (retCode = 0 ↔ ¬SomeScanStopsShort store iter start.store.media start.store.clock
        poolsToDelete deleteAllPools) ∧
      (retCode = 0 → PoolsDeleted store poolsToDelete start after) := by
  cases deleteAllPools with
  | true =>
    obtain ⟨retCode, media, log, ran, code, remaining⟩ :=
      run_deletePool_all thread iter poolsToDelete pairs books (all rfl) memory
    cases retCode with
    | zero =>
      have finished : (startPoolDelete store iter poolsToDelete true memory).run
          (answerSystem store thread) start = some (.ok 0, (start.onMedia media log).managed
            (start.mgr.clearPoolBitmaps store poolsToDelete true start.poolMedia).2.1
            (start.mgr.clearPoolBitmaps store poolsToDelete true start.poolMedia).2.2) := by
        simp only [startPoolDelete, if_true, Program.run_bind, ran, Option.bind_some,
          @run_clearPoolBitmaps ι store thread poolsToDelete (start.onMedia media log) free,
          Program.run_pure]
        rfl
      refine ⟨0, _, finished, code, fun _ => ?_⟩
      refine PoolsDeleted.of_remaining poolsToDelete pairs books remaining fun i chosen => ?_
      exact cleared_bitmaps poolsToDelete books (fun _ => id) start.poolMedia chosen
    | succ retCode =>
      refine ⟨retCode + 1, start.onMedia media log, ?_, code,
        fun zero => absurd zero (Nat.succ_ne_zero _)⟩
      simp only [startPoolDelete, if_true, Program.run_bind, ran, Option.bind_some,
        Program.run_pure]
  | false =>
    have positive := store.poolsPositive
    have first : @DeletedBelow ι store poolsToDelete start start 1 :=
      { remaining := by
          refine Remaining.start.congr fun range member => ?_
          rw [deletedBelow]
          by_cases chosen :
              bitmapTest poolsToDelete (rangePool store start.store.media range) = true
          · have above := (books.pendingInUse _ chosen).2
            simp [Nat.ne_of_gt above]
          · simp [chosen]
        cleared := by
          intro i below chosen
          have above := (books.pendingInUse i chosen).2
          omega
        free := free
        clock := rfl }
    obtain ⟨retCode, after, ran, code, finished⟩ := @run_deletePools ι store thread iter
      poolsToDelete start start (bitmapTest poolsToDelete) pairs books memory 1
      (store.maxPools - 1) (by omega) first
    have last : 1 + (store.maxPools - 1) = store.maxPools := by omega
    rw [last] at code finished
    have member : ∀ i, bitmapTest poolsToDelete i = true → 1 ≤ i ∧ i < store.maxPools := by
      intro i chosen
      obtain ⟨used, above⟩ := books.pendingInUse i chosen
      exact ⟨above, books.inUseBounded i used⟩
    refine ⟨retCode, after, ran, ?_, fun zero => ?_⟩
    · rw [code, SomeScanStopsShort, if_neg Bool.false_ne_true, not_exists]
      constructor
      · rintro none i ⟨chosen, stops⟩
        exact none i (member i chosen).1 (member i chosen).2 chosen stops
      · exact fun none i _ _ chosen stops => none i ⟨chosen, stops⟩
    · exact PoolsDeleted.of_remaining poolsToDelete pairs books (finished zero).remaining
        fun i chosen => (finished zero).cleared i (member i chosen).2 chosen

/-- Pool deletion completes exactly when no scan stops short. The snapshot may be
any set of pools in use that contains all of them when the pools are deleted at
once. -/
theorem pool_deletion_completes (deleteAllPools : Bool) (memory : Nat)
    (pairs : PairsInRanges store start)
    (books : Bookkeeping store start.mgr (bitmapTest poolsToDelete))
    (free : start.mgr.mutexHeld = false)
    (all : deleteAllPools = true → ∀ i, 0 < i → bitmapTest start.mgr.inUse i = true →
      bitmapTest poolsToDelete i = true) :
    (∃ after, (startPoolDelete store iter poolsToDelete deleteAllPools memory).run
        (answerSystem store thread) start = some (.ok 0, after) ∧
      PoolsDeleted store poolsToDelete start after) ↔
    ¬SomeScanStopsShort store iter start.store.media start.store.clock poolsToDelete
      deleteAllPools := by
  obtain ⟨retCode, after, ran, code, finished⟩ :=
    run_startPoolDelete thread iter poolsToDelete deleteAllPools memory pairs books free all
  rw [← code, ran]
  constructor
  · rintro ⟨_, same, _⟩
    exact Except.ok.inj (Prod.mk.inj (Option.some.inj same)).1
  · intro zero
    refine ⟨after, ?_, finished zero⟩
    rw [zero]

end Runs

/-- A snapshot that says to delete all pools has all of them. -/
theorem NvmKvPoolMgr.copied_all {store : NvmKvStore} {mgr : NvmKvPoolMgr} {pending : Nat → Bool}
    (books : Bookkeeping store mgr pending)
    (deleteAllPools : (mgr.getPoolDeletionBitmap store).2 = true) {i : Nat} (positive : 0 < i)
    (used : bitmapTest mgr.inUse i = true) :
    bitmapTest (mgr.getPoolDeletionBitmap store).1 i = true := by
  have bounded := books.inUseBounded i used
  have same := Mirrored.same_bits deleteAllPools bounded
  have zero : ¬i = 0 := Nat.ne_of_gt positive
  rw [bitmapTest_clear, decide_eq_false zero, Bool.not_false, Bool.true_and, used] at same
  rw [getPoolDeletionBitmap, bitmapTest_eq]
  dsimp only
  rw [if_pos (store.word_inside bounded), ← bitmapTest_eq]
  exact same.symm

/-- A store whose one pool besides the default one is marked to be deleted. -/
def oneMarked : NvmKvPoolMgr :=
  ((NvmKvPoolMgr.created fun _ => .zero).allocated none 1).markDeleted 1

/-- The books of a manager with one marked pool are right. -/
theorem oneMarked_bookkeeping :
    Bookkeeping NvmKvStore.terabyteStore oneMarked fun _ => false := by
  have created := Bookkeeping.created NvmKvStore.terabyteStore fun _ => .zero
  exact (created.allocated none (by decide) (by decide)).markDeleted (by decide)

/-- The store with one pair, of one sector, on its media. -/
def onePair (poolId : UInt32) (lba : Nat) : SystemState Unit :=
  SystemState.managed
    { store :=
      .opened (fun l => if l = lba then some (writeHeader (fun _ => 0) poolId [97] 5 41 0 0)
        else none) (fun _ => false) 0
      mgr := oneMarked
      poolMedia := openedPools.media }
    oneMarked
    (NvmKvStore.terabyteStore.persistStoreInfo oneMarked
      [.kvstoreMetadata, .bmInuse, .bmDeleted, .poolTags] none true openedPools.media).2

/-- The device iterator's portions have thirty-two ranges. -/
def portionOf32 : LogicalIterRanges := ⟨32, by decide⟩

section OnePair

variable {poolId : UInt32} {lba : Nat}

/-- A pair of one sector is the only mapped range. -/
theorem onePair_ranges (inside : NvmKvStore.terabyteStore.usrData.Covers lba) :
    (onePair poolId lba).store.media.logicalRanges NvmKvStore.terabyteStore.usrData =
      [⟨lba, 1⟩] := Media.logicalRanges_single inside

/-- Its header has the pool that it was written with. -/
theorem onePair_header :
    rangeHeader NvmKvStore.terabyteStore (onePair poolId lba).store.media ⟨lba, 1⟩ =
      ⟨1, 5, 41, poolId.toNat, 0, 0⟩ := by
  have stored : (onePair poolId lba).store.media lba =
      some (writeHeader (fun _ => 0) poolId [97] 5 41 0 0) := if_pos rfl
  have bounded := poolId.toNat_lt
  rw [rangeHeader, storedHeader_sector stored, readHeader_writeHeader, Nat.mod_eq_of_lt bounded]
  rfl

/-- The pair is in its own range. -/
theorem onePair_pairs (inside : NvmKvStore.terabyteStore.usrData.Covers lba)
    (used : bitmapTest oneMarked.inUse poolId.toNat = true)
    (placed : lba &&& NvmKvStore.terabyteStore.poolMask =
      NvmKvStore.terabyteStore.poolIdHash poolId) :
    PairsInRanges NvmKvStore.terabyteStore (onePair poolId lba) := by
  have only : ∀ range ∈ (onePair poolId lba).store.media.logicalRanges
      NvmKvStore.terabyteStore.usrData, range = ⟨lba, 1⟩ := by
    intro range member
    rw [onePair_ranges inside, List.mem_singleton] at member
    exact member
  refine ⟨?_, ?_, ?_, ?_⟩
  · intro range member
    rw [only range member, onePair_header]
    rfl
  · intro range member
    rw [only range member, rangePool, onePair_header]
    exact used
  · intro range member
    rw [only range member, rangePool, onePair_header]
    dsimp only
    rw [placed, UInt32.ofNat_toNat]
  · intro range member
    have size : 1 * NvmKvStore.terabyteStore.sectorSize ≤
        NvmKvStore.terabyteStore.capabilities.maxTrimSize := by decide
    rw [only range member]
    exact size

/-- The deletion bits copied from the store. -/
def copiedPools : KvBitmap := (oneMarked.getPoolDeletionBitmap NvmKvStore.terabyteStore).1

/-- The pools besides the default one are all copied. -/
theorem onePair_all : ∀ i, 0 < i → bitmapTest (onePair poolId lba).mgr.inUse i = true →
    bitmapTest copiedPools i = true := by
  have flag : (oneMarked.getPoolDeletionBitmap NvmKvStore.terabyteStore).2 = true := by
    decide +kernel
  exact fun i positive used =>
    NvmKvPoolMgr.copied_all oneMarked_bookkeeping flag positive used

/-- The books are right with the copy as what is due. -/
theorem onePair_books :
    Bookkeeping NvmKvStore.terabyteStore (onePair poolId lba).mgr (bitmapTest copiedPools) :=
  oneMarked_bookkeeping.snapshot

/-- The range of the pair is what the device returns to the scan for all pools. -/
theorem onePair_scanRanges (inside : NvmKvStore.terabyteStore.usrData.Covers lba) :
    scanRanges NvmKvStore.terabyteStore (onePair poolId lba).store.media none = [⟨lba, 1⟩] := by
  rw [scanRanges, onePair_ranges inside, if_pos rfl, List.filter_cons,
    if_pos (Media.passesFilter_zero _), List.filter_nil]

/-- The scan for all pools skips the pair when it is of the default pool. -/
theorem onePair_skips (pairs : PairsInRanges NvmKvStore.terabyteStore (onePair poolId lba))
    (inside : NvmKvStore.terabyteStore.usrData.Covers lba) :
    scanSkips NvmKvStore.terabyteStore
        (rangeHeader NvmKvStore.terabyteStore (onePair poolId lba).store.media) none ⟨lba, 1⟩ =
      decide (poolId.toNat = 0) := by
  have member : ⟨lba, 1⟩ ∈ (onePair poolId lba).store.media.logicalRanges
      NvmKvStore.terabyteStore.usrData := by
    rw [onePair_ranges inside]
    exact List.mem_singleton_self _
  have skips := pairs.scanSkips_all onePair_books member
  rw [rangePool, onePair_header] at skips
  rw [Bool.eq_iff_iff, decide_eq_true_iff]
  exact skips

end OnePair

/-- A store with one pool to delete and a pair of the default pool: the scan for all
pools skips the pair and returns one, and the pool is never cleared. -/
theorem default_pair_stops_deletion :
    ¬∀ (store : NvmKvStore) (iter : LogicalIterRanges) (state : SystemState Unit)
      (poolsToDelete : KvBitmap) (deleteAllPools : Bool) (memory : Nat),
      PairsInRanges store state → Bookkeeping store state.mgr (bitmapTest poolsToDelete) →
      state.mgr.mutexHeld = false →
      state.mgr.getPoolDeletionBitmap store = (poolsToDelete, deleteAllPools) →
      (∃ i, bitmapTest poolsToDelete i = true) →
      ∃ after, (startPoolDelete store iter poolsToDelete deleteAllPools memory).run
          (answerSystem store ()) state = some (.ok 0, after) ∧
        PoolsDeleted store poolsToDelete state after := by
  intro completes
  have inside : NvmKvStore.terabyteStore.usrData.Covers 130334720 := by
    unfold NvmBlockRange.Covers
    decide +kernel
  have pairs := @onePair_pairs 0 130334720 inside (by decide) (by decide +kernel)
  have copied : oneMarked.getPoolDeletionBitmap NvmKvStore.terabyteStore = (copiedPools, true) :=
    Prod.ext rfl (by decide +kernel)
  obtain ⟨after, ran, _⟩ := completes NvmKvStore.terabyteStore portionOf32 (onePair 0 130334720)
    copiedPools true 0 pairs onePair_books rfl copied ⟨1, by decide +kernel⟩
  obtain ⟨retCode, _, ranAgain, code, _⟩ := run_startPoolDelete () portionOf32 copiedPools true 0
    pairs onePair_books rfl fun _ => onePair_all
  rw [ran] at ranAgain
  have zero : retCode = 0 := (Except.ok.inj (Prod.mk.inj (Option.some.inj ranAgain)).1).symm
  have skips := onePair_skips pairs inside
  refine code.mp zero ?_
  rw [SomeScanStopsShort, if_pos rfl, onePair_scanRanges inside, StopsShort, List.countP_singleton,
    skips]
  refine ⟨by decide, ?_⟩
  have direct : NvmKvStore.terabyteStore.validatesPoolIdOnMedia = false := by decide
  rw [direct, if_neg Bool.false_ne_true, lastPortion_short _ (by decide)]
  refine ⟨List.cons_ne_nil _ _, fun range member => ?_⟩
  rw [List.mem_singleton.mp member, skips]
  decide

/-- With a pair of the pool to delete instead, the deletion completes. -/
theorem pool_deletion_completes_one_pair :
    ∃ after, (startPoolDelete NvmKvStore.terabyteStore portionOf32 copiedPools true 0).run
        (answerSystem NvmKvStore.terabyteStore ()) (onePair 1 1966219265) = some (.ok 0, after) ∧
      PoolsDeleted NvmKvStore.terabyteStore copiedPools (onePair 1 1966219265) after := by
  have inside : NvmKvStore.terabyteStore.usrData.Covers 1966219265 := by
    unfold NvmBlockRange.Covers
    decide +kernel
  have pairs := @onePair_pairs 1 1966219265 inside (by decide) (by decide +kernel)
  have skips := onePair_skips pairs inside
  refine (pool_deletion_completes () portionOf32 copiedPools true 0 pairs onePair_books rfl
    fun _ => onePair_all).mpr ?_
  rw [SomeScanStopsShort, if_pos rfl, onePair_scanRanges inside, StopsShort, List.countP_singleton,
    skips]
  exact fun stops => absurd stops.1 (by decide)

end Nvmkv
