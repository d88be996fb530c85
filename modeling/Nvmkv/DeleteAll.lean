import Nvmkv.CacheProbing
import Nvmkv.DeleteAllKeys
import Nvmkv.MapListing

/-!
# Deleting everything

`kv_delete_all` empties the cache and then trims all mapped ranges of the data area. A range
that is longer than the trim limit ends it with an error, and the vectors that were
collected in front of that range are dropped with it.

Success and failure are told apart by the lengths of the ranges alone. A failed call has
still forgotten all entries of the cache and trimmed some ranges, each of them as a whole.
In a pool that its user keeps tidy a range is a pair, so that a failed call takes some
pairs away and leaves the others as they were.
-/

namespace Nvmkv

variable {ι : Type}

/-- Empty all entries of the cache (`kv_cache_delete_all`). -/
def kvCacheDeleteAll (totalEntries : Nat) (table : NvmKvCacheTable) : NvmKvCacheTable :=
  fun slot =>
    if slot < totalEntries ∧ (table slot).key ≠ [] then
      { NvmKvCacheEntry.zero with index := slot }
    else table slot

/-- Delete all user data from the media (`delete_all`). The number of keys in the metadata, which
is set to zero at the end, is not read by anything. -/
def deleteAll (store : NvmKvStore) (iter : LogicalIterRanges) (thread : ι)
    (rangesAllocated iovecAllocated : Bool) (state : SystemState ι) :
    Option (Except NvmErrorCode Nat × SystemState ι) :=
  let cache :=
    if store.cacheSize = 0 then state.store.cache
    else kvCacheDeleteAll (2 ^ cacheAddrBits store.cacheSize) state.store.cache
  (deleteAllKeys store iter store.dataStartLba (store.kvLen - store.dataStartLba) rangesAllocated
    iovecAllocated).run (answerSystem store thread)
      { state with store := { state.store with cache := cache } }

/-- What `kv_delete_all` makes of a code: every code but zero is an error. -/
def deleteAllResult : Except NvmErrorCode Nat → Except Int Unit
  | .ok code => if code = 0 then .ok () else .error code
  | .error code => .error code.retCode

/-- Delete all keys on the drive (`kv_delete_all`). -/
def kvDeleteAll (store : NvmKvStore) (iter : LogicalIterRanges) (thread : ι)
    (rangesAllocated iovecAllocated : Bool) (state : SystemState ι) :
    Option (Except Int Unit × SystemState ι) :=
  (deleteAll store iter thread rangesAllocated iovecAllocated state).map
    (Prod.map deleteAllResult id)

/-- Nothing is found in a cache that was emptied: a lookup stays at its first slot. -/
theorem kvCacheGet_deleteAll (bits : Nat) (table : NvmKvCacheTable) (key : List UInt8)
    (poolId : UInt32) (checksExpiry : Bool) (time : Nat) :
    (kvCacheGet bits (kvCacheDeleteAll (2 ^ bits) table) key poolId checksExpiry time).1 =
      false := by
  have inside := @NvmKvHashFunc.keyHash_lt (cacheHashFunc bits) key poolId bits
  have empty : (kvCacheDeleteAll (2 ^ bits) table
      ((cacheHashFunc bits).keyHash key poolId bits false)).key = [] := by
    rw [kvCacheDeleteAll]
    split
    · rfl
    · rename_i kept
      by_contra filled
      exact kept ⟨inside, filled⟩
  rw [kvCacheGet, mCollisionLimit, kvCacheGetLoop]
  simp only [empty, ne_eq, not_true_eq_false, if_false]
  rw [kvCacheGetLoop_at_hole empty rfl]

section Long

variable {store : NvmKvStore} {thread : ι}

/-- The inner loop over ranges that follow each other. Induction follows the first ones. -/
theorem run_deleteAllPortion_append (first second : List NvmBlockRange) (scan : DeleteAllState)
    (state : SystemState ι) :
    (deleteAllPortion store (first ++ second) scan).run (answerSystem store thread) state =
      ((deleteAllPortion store first scan).run (answerSystem store thread) state).bind fun ran =>
        match ran.1 with
        | .error code => some (.error code, ran.2)
        | .ok next =>
            (deleteAllPortion store second next).run (answerSystem store thread) ran.2 := by
  induction first generalizing scan state with
  | nil => simp [deleteAllPortion]
  | cons range rest inductionHypothesis =>
    rw [List.cons_append, deleteAllPortion, deleteAllPortion]
    dsimp only
    split_ifs
    · rfl
    · rw [Program.run_bind, Program.run_bind, Option.bind_assoc]
      apply Option.bind_congr
      rintro ⟨trimmed, reached⟩ _
      cases trimmed with
      | error code => rfl
      | ok done => exact inductionHypothesis _ _
    · exact inductionHypothesis _ _

/-- Of the ranges that are longer than the trim limit, one is the first. -/
theorem exists_first_long {ranges : List NvmBlockRange}
    (long : ∃ range ∈ ranges, store.capabilities.maxTrimSize < range.length * store.sectorSize) :
    ∃ before first after, ranges = before ++ first :: after ∧
      store.capabilities.maxTrimSize < first.length * store.sectorSize ∧
      ∀ range ∈ before, range.length * store.sectorSize ≤ store.capabilities.maxTrimSize := by
  have some : (ranges.find? fun range =>
      decide (store.capabilities.maxTrimSize < range.length * store.sectorSize)).isSome := by
    simpa using long
  obtain ⟨first, found⟩ := Option.isSome_iff_exists.mp some
  obtain ⟨tooLong, before, after, split, short⟩ := List.find?_eq_some_iff_append.mp found
  refine ⟨before, first, after, split, of_decide_eq_true tooLong, ?_⟩
  intro range member
  simpa using short range member

/-- The inner loop ends with an error at a range that is too long. What was trimmed is trimmed. -/
theorem run_deleteAllPortion_long {ranges : List NvmBlockRange} {state : SystemState ι}
    {scan : DeleteAllState}
    (long : ∃ range ∈ ranges, store.capabilities.maxTrimSize < range.length * store.sectorSize)
    (apart : ((scan.iovec ++ ranges.map (poolRangeIovec store)).map (·.iovLba)).Nodup)
    (free : ∀ vector ∈ scan.iovec ++ ranges.map (poolRangeIovec store),
      state.store.safeLbaList vector.iovLba = none)
    (room : scan.iovec.length < store.capabilities.nvmMaxNumIovs) :
    ∃ batches, (deleteAllPortion store ranges scan).run (answerSystem store thread) state =
        some (.error .internalFailure, state.afterBatches store thread batches) ∧
      ∀ vector ∈ batches.flatten, vector ∈ scan.iovec ++ ranges.map (poolRangeIovec store) := by
  obtain ⟨before, first, after, rfl, tooLong, small⟩ := exists_first_long long
  have ends : ∀ next (reached : SystemState ι),
      (deleteAllPortion store (first :: after) next).run (answerSystem store thread) reached =
        some (.error .internalFailure, reached) := by
    intro next reached
    rw [deleteAllPortion, if_pos tooLong, Program.run_pure]
  rcases List.eq_nil_or_concat before with rfl | ⟨front, last, rfl⟩
  · refine ⟨[], ?_, ?_⟩
    · rw [List.nil_append, ends]
      simp [SystemState.afterBatches, SystemState.onMedia]
    · intro vector member
      cases member
  · rw [List.map_append (f := poolRangeIovec store), ← List.append_assoc] at apart free
    rw [List.map_append (f := fun vector : NvmIovec => vector.iovLba)] at apart
    obtain ⟨batches, rest, code, ran, blocks, _⟩ := @run_deleteAllPortion ι store thread
      (front.concat last) state scan small (List.nodup_append.mp apart).1
      (fun vector member => free vector (List.mem_append_left _ member)) room
      (fun _ none => absurd none (by simp))
    refine ⟨batches, ?_, ?_⟩
    · rw [run_deleteAllPortion_append, ran, Option.bind_some]
      exact ends _ _
    · intro vector member
      have listed : vector ∈ scan.iovec ++ (front.concat last).map (poolRangeIovec store) := by
        rw [← blocks.flatten]
        exact List.mem_append_left _ member
      rw [List.map_append, ← List.append_assoc]
      exact List.mem_append_left _ listed

/-- So does the outer loop. Induction is on the rounds: the range lies in this portion or behind
it. -/
theorem run_deleteAllLoop_long (iter : LogicalIterRanges) {fuel : Nat} {search : NvmBlockRange}
    {state : SystemState ι} {iovec : List NvmIovec} {ranges : List NvmBlockRange}
    (enough : search.length < fuel) (listed : state.store.media.logicalRanges search = ranges)
    (long : ∃ range ∈ ranges, store.capabilities.maxTrimSize < range.length * store.sectorSize)
    (apart : ((iovec ++ ranges.map (poolRangeIovec store)).map (·.iovLba)).Nodup)
    (free : ∀ vector ∈ iovec ++ ranges.map (poolRangeIovec store),
      state.store.safeLbaList vector.iovLba = none)
    (earlier : ∀ vector ∈ iovec, ∀ l, Media.Covers store.sectorSize vector l →
      l < search.startLba)
    (room : iovec.length < store.capabilities.nvmMaxNumIovs) :
    ∃ batches, (deleteAllLoop store iter fuel search iovec).run (answerSystem store thread) state =
        some (.error .internalFailure, state.afterBatches store thread batches) ∧
      ∀ vector ∈ batches.flatten, vector ∈ iovec ++ ranges.map (poolRangeIovec store) := by
  induction fuel generalizing search state iovec ranges with
  | zero => exact absurd enough (Nat.not_lt_zero _)
  | succ fuel inductionHypothesis =>
    obtain ⟨found, left, portion⟩ := takesPortion_all store thread iter.positive listed
    have calls := portion.calls
    have split := portion.split
    have front : ∀ vector ∈ iovec ++ found.map (poolRangeIovec store),
        vector ∈ iovec ++ ranges.map (poolRangeIovec store) := by
      intro vector member
      rw [← split, List.map_append, ← List.append_assoc]
      exact List.mem_append_left _ member
    by_cases here : ∃ range ∈ found,
        store.capabilities.maxTrimSize < range.length * store.sectorSize
    · rw [← split, List.map_append (f := poolRangeIovec store), ← List.append_assoc,
        List.map_append] at apart
      obtain ⟨batches, ran, inside⟩ := @run_deleteAllPortion_long ι store thread found state
        ⟨found.length, iovec⟩ here (List.nodup_append.mp apart).1
        (fun vector member => free vector (front vector member)) room
      refine ⟨batches, ?_, fun vector member => front vector (inside vector member)⟩
      simp only [deleteAllLoop, Program.run_bind, calls, Option.bind_some, ran, Program.run_pure]
    · have small : ∀ range ∈ found,
          range.length * store.sectorSize ≤ store.capabilities.maxTrimSize := by
        intro range member
        by_contra larger
        exact here ⟨range, member, Nat.lt_of_not_le larger⟩
      obtain ⟨range, member, tooLong⟩ := long
      have later : range ∈ ranges.drop iter.nvmMaxNumLogicalIterRanges := by
        rw [← split] at member
        rcases List.mem_append.mp member with front | back
        · exact absurd ⟨range, front, tooLong⟩ here
        · exact back
      have full : ¬found.length < iter.nvmMaxNumLogicalIterRanges := by
        intro short
        rw [portion.nothing short] at later
        cases later
      have shorter := portion.shorter (portion.nonempty iter.positive full)
      rw [← split] at apart free
      obtain ⟨batches, carried, code, ran, blocks, _, apartRest, freeRest⟩ :=
        @run_deleteAllRound ι store thread found _ state iovec small apart free room
      obtain ⟨passed, listedLeft⟩ := portion.continues earlier blocks.flatten
      obtain ⟨further, continued, inside⟩ := @inductionHypothesis left
        (state.afterBatches store thread batches) carried
        (ranges.drop iter.nvmMaxNumLogicalIterRanges)
        (by omega) listedLeft ⟨range, later, tooLong⟩ apartRest freeRest passed blocks.room
      refine ⟨batches ++ further, ?_, ?_⟩
      · rw [SystemState.afterBatches_append] at continued
        simp only [deleteAllLoop, Program.run_bind, calls, Option.bind_some, ran, if_neg full]
        exact continued
      · intro vector member
        rw [← split, List.map_append, ← List.append_assoc, ← blocks.flatten, List.append_assoc]
        rw [List.flatten_append] at member
        rcases List.mem_append.mp member with first | behind
        · exact List.mem_append_left _ first
        · exact List.mem_append_right _ (inside vector behind)

end Long

section Effects

variable {store : NvmKvStore} {thread : ι}

/-- What `kv_delete_all` leaves, whether it succeeds or not: nothing is cached, no address is
held, every mapped range of the data area was trimmed as a whole or left as it was, and all
else stays. -/
structure DeletedAll (store : NvmKvStore) (before after : SystemState ι) : Prop where
  idle : Idle after.store
  uncached : ∀ poolId key, (cacheAnswer store after.store poolId key).1 = false
  outside : ∀ l, (∀ range ∈ before.store.media.logicalRanges store.usrData, ¬range.Covers l) →
    after.store.media l = before.store.media l
  wholly : ∀ range ∈ before.store.media.logicalRanges store.usrData,
    (∀ l, range.Covers l → after.store.media l = none) ∨
      ∀ l, range.Covers l → after.store.media l = before.store.media l
  inUse : after.store.inUse = before.store.inUse
  deleted : after.store.deleted = before.store.deleted
  expiryQueue : after.store.expiryQueue = before.store.expiryQueue
  clock : after.store.clock = before.store.clock
  mgr : after.mgr = before.mgr
  poolMedia : after.poolMedia = before.poolMedia

/-- Nothing is written. -/
theorem DeletedAll.trimmed {before after : SystemState ι} (done : DeletedAll store before after)
    (l : Nat) : after.store.media l = none ∨ after.store.media l = before.store.media l := by
  by_cases covered : ∃ range ∈ before.store.media.logicalRanges store.usrData, range.Covers l
  · obtain ⟨range, listed, covers⟩ := covered
    rcases done.wholly range listed with gone | stays
    · exact Or.inl (gone l covers)
    · exact Or.inr (stays l covers)
  · exact Or.inr (done.outside l fun range listed covers => covered ⟨range, listed, covers⟩)

/-- A state in which some ranges were trimmed and the cache was emptied. -/
theorem deletedAll_of_batches {state : SystemState ι} {batches : List (List NvmIovec)}
    (idle : Idle state.store)
    (inside : ∀ vector ∈ batches.flatten, ∃ range ∈ state.store.media.logicalRanges store.usrData,
      poolRangeIovec store range = vector) :
    DeletedAll store state (({ state with store := { state.store with
        cache := if store.cacheSize = 0 then state.store.cache
          else kvCacheDeleteAll (2 ^ cacheAddrBits store.cacheSize) state.store.cache } } :
      SystemState ι).afterBatches store thread batches) := by
  constructor
  · exact idle
  · intro poolId key
    rw [cacheAnswer]
    split
    · rename_i cached
      have some : store.cacheSize ≠ 0 := by omega
      simp only [SystemState.afterBatches, SystemState.onMedia, if_neg some]
      exact kvCacheGet_deleteAll _ _ key poolId _ _
    · rfl
  · intro l outside
    apply SystemState.afterBatches_frame
    intro vector member covers
    obtain ⟨range, listed, rfl⟩ := inside vector member
    exact outside range listed ((poolRangeIovec_covers store).mp covers)
  · intro range listed
    by_cases handed : poolRangeIovec store range ∈ batches.flatten
    · left
      intro l covers
      apply Media.applyBatch_trims
      · intro vector member
        obtain ⟨other, _, rfl⟩ := inside vector member
        rfl
      · exact ⟨_, handed, (poolRangeIovec_covers store).mpr covers⟩
    · right
      intro l covers
      apply SystemState.afterBatches_frame
      intro vector member shared
      obtain ⟨other, otherListed, rfl⟩ := inside vector member
      have same := Media.logicalRanges_unique listed otherListed covers
        ((poolRangeIovec_covers store).mp shared)
      rw [same] at handed
      exact handed member
  all_goals rfl

end Effects

/-- When all mapped ranges of an area are trimmed, nothing is mapped there. -/
theorem trimmed_logicalRanges (store : NvmKvStore) (media : Media) {search : NvmBlockRange}
    {l : Nat} (inside : search.Covers l) :
    media.applyBatch store.sectorSize
      ((media.logicalRanges search).map (poolRangeIovec store)) l = none := by
  by_cases mapped : (media l).isSome = true
  · obtain ⟨range, listed, covers⟩ := Media.logicalRanges_cover inside mapped
    apply Media.applyBatch_trims
    · intro vector member
      obtain ⟨other, _, rfl⟩ := List.mem_map.mp member
      rfl
    · exact ⟨_, List.mem_map_of_mem listed, (poolRangeIovec_covers store).mpr covers⟩
  · rw [Media.applyBatch_frame]
    · simpa using mapped
    · intro vector member covers
      obtain ⟨range, listed, rfl⟩ := List.mem_map.mp member
      exact mapped ((Media.isRun_of_mem listed).mapped l
        ((poolRangeIovec_covers store).mp covers))

/-- Deleting everything runs the loop over the data area. -/
theorem run_deleteAll {store : NvmKvStore} {iter : LogicalIterRanges} {thread : ι}
    {state : SystemState ι} (search : NvmBlockRange) (area : search = store.usrData)
    {cleared : SystemState ι} (emptied : cleared = { state with
      store := { state.store with
        cache := if store.cacheSize = 0 then state.store.cache
          else kvCacheDeleteAll (2 ^ cacheAddrBits store.cacheSize) state.store.cache } })
    {answer : Except NvmErrorCode Nat × SystemState ι}
    (ran : (deleteAllLoop store iter (search.length + 1) search []).run
      (answerSystem store thread) cleared = some answer) :
    deleteAll store iter thread true true state = some answer := by
  have first : store.dataStartLba = search.startLba := by rw [area, NvmKvStore.usrData]
  have length : store.kvLen - store.dataStartLba = search.length := by
    rw [area, NvmKvStore.usrData]
  rw [deleteAll, deleteAllKeys, length, first]
  simp only [Bool.not_true, Bool.or_self, Bool.false_eq_true, if_false, ← emptied]
  exact ran

/-- How `kv_delete_all` ends, with no device error and no other call. -/
theorem run_kvDeleteAll (store : NvmKvStore) (iter : LogicalIterRanges) (thread : ι)
    (state : SystemState ι) (idle : Idle state.store) :
    ∃ (result : Except Int Unit) (after : SystemState ι),
      kvDeleteAll store iter thread true true state = some (result, after) ∧
      (result = .ok () ↔ ∀ range ∈ state.store.media.logicalRanges store.usrData,
        range.length * store.sectorSize ≤ store.capabilities.maxTrimSize) ∧
      (result = .ok () → ∀ l, store.usrData.Covers l → after.store.media l = none) ∧
      DeletedAll store state after := by
  obtain ⟨search, area⟩ : ∃ search, search = store.usrData := ⟨_, rfl⟩
  obtain ⟨cleared, emptied⟩ : ∃ cleared : SystemState ι, cleared = { state with
      store := { state.store with
        cache := if store.cacheSize = 0 then state.store.cache
          else kvCacheDeleteAll (2 ^ cacheAddrBits store.cacheSize) state.store.cache } } :=
    ⟨_, rfl⟩
  have runs := @run_deleteAll ι store iter thread state search area cleared emptied
  have done : ∀ batches : List (List NvmIovec), (∀ vector ∈ batches.flatten,
      vector ∈ (state.store.media.logicalRanges search).map (poolRangeIovec store)) →
        DeletedAll store state (cleared.afterBatches store thread batches) := by
    intro batches inside
    rw [emptied]
    apply deletedAll_of_batches idle
    intro vector member
    rw [← area]
    exact List.mem_map.mp (inside vector member)
  have media : cleared.store.media = state.store.media := by rw [emptied]
  have free : ∀ lba, cleared.store.safeLbaList lba = none := by
    rw [emptied]
    exact idle
  rw [← area]
  obtain ⟨ranges, listed⟩ : ∃ ranges, state.store.media.logicalRanges search = ranges := ⟨_, rfl⟩
  have apart : ((ranges.map (poolRangeIovec store)).map (·.iovLba)).Nodup := by
    rw [← listed, List.map_map, List.Nodup, List.pairwise_map]
    refine Media.logicalRanges_pairwise.imp fun {first second} before => ?_
    change first.startLba ≠ second.startLba
    omega
  rw [listed] at done ⊢
  by_cases small : ∀ range ∈ ranges,
      range.length * store.sectorSize ≤ store.capabilities.maxTrimSize
  · obtain ⟨batches, ran, flatten, _⟩ := @run_deleteAllLoop ι store thread iter
      (search.length + 1) search cleared [] ranges (Nat.lt_succ_self _) (media ▸ listed) small
      apart (fun vector _ => free vector.iovLba) (fun _ absent => absurd absent List.not_mem_nil)
      store.capabilities.iovsPositive
    rw [List.nil_append] at flatten
    refine ⟨.ok (), _, ?_, ⟨fun _ => small, fun _ => rfl⟩, ?_,
      done batches fun vector member => flatten ▸ member⟩
    · rw [kvDeleteAll, runs ran, Option.map_some, Prod.map, deleteAllResult, if_pos rfl, id]
    · intro _ l inside
      rw [SystemState.afterBatches, SystemState.onMedia_media, flatten, media, ← listed]
      exact trimmed_logicalRanges store state.store.media inside
  · have long : ∃ range ∈ ranges,
        store.capabilities.maxTrimSize < range.length * store.sectorSize := by
      by_contra none
      apply small
      intro range member
      by_contra larger
      exact none ⟨range, member, Nat.lt_of_not_le larger⟩
    obtain ⟨batches, ran, inside⟩ := @run_deleteAllLoop_long ι store thread iter
      (search.length + 1) search cleared [] ranges (Nat.lt_succ_self _) (media ▸ listed) long
      apart (fun vector _ => free vector.iovLba) (fun _ absent => absurd absent List.not_mem_nil)
      store.capabilities.iovsPositive
    refine ⟨.error NvmErrorCode.internalFailure.retCode, _, ?_, ?_, ?_, done batches inside⟩
    · rw [kvDeleteAll, runs ran, Option.map_some, Prod.map, deleteAllResult, id]
    · constructor
      · intro impossible
        cases impossible
      · exact fun all => absurd all small
    · intro impossible
      cases impossible

/-- With no device error, no failing allocation and no other call, `kv_delete_all` succeeds exactly
when no mapped range of the data area is longer than the trim limit. No key with its addresses in
the data area exists then. Whether it succeeds or not, it has emptied the cache, trimmed mapped
ranges as a whole, and changed nothing else. -/
theorem delete_all_forgets (store : NvmKvStore) (iter : LogicalIterRanges) (thread : ι)
    (state : SystemState ι) (idle : Idle state.store) :
    ∃ (result : Except Int Unit) (after : SystemState ι),
      kvDeleteAll store iter thread true true state = some (result, after) ∧
      (result = .ok () ↔ ∀ range ∈ state.store.media.logicalRanges store.usrData,
        range.length * store.sectorSize ≤ store.capabilities.maxTrimSize) ∧
      (result = .ok () → ∀ poolId key buf, keyAccepted after.store poolId key = true →
        (∀ lba ∈ store.probes poolId key, store.usrData.Covers lba) →
          (kvExists store poolId key (some buf)).run (answer store thread) after.store =
            some (.ok none, after.store)) ∧
      DeletedAll store state after := by
  obtain ⟨result, after, ran, succeeds, empties, done⟩ :=
    run_kvDeleteAll store iter thread state idle
  refine ⟨result, after, ran, succeeds, ?_, done⟩
  intro success poolId key buf accepted inside
  have missing : lookupLba store after.store.media poolId key = none := by
    apply List.find?_eq_none.mpr
    intro lba probed
    have unmapped := empties success lba (inside lba probed)
    simp [holds_unmapped (of_decide_eq_true (valid_of_accepted accepted)).1 unmapped]
  rw [run_kvExists store thread after.store buf accepted]
  simp [liveHeader, afterLookup, missing]

/-- A store with one pair is emptied. -/
theorem delete_all_forgets_pair : ∃ after : SystemState Unit,
    kvDeleteAll NvmKvStore.terabyteStore ⟨2, by decide⟩ () true true (copiesState false) =
        some (.ok (), after) ∧
      ∀ poolId key, (cacheAnswer NvmKvStore.terabyteStore after.store poolId key).1 = false := by
  obtain ⟨result, after, ran, succeeds, _, done⟩ := delete_all_forgets
    NvmKvStore.terabyteStore ⟨2, by decide⟩ () (copiesState false) (fun _ => rfl)
  have single : ∀ l, (copiesMedia false l).isSome = true → l = sharedLba := by
    intro l mapped
    rw [copiesMedia] at mapped
    split_ifs at mapped with shared next
    · exact shared
    · exact next.2.elim
    · exact Bool.noConfusion mapped
  have success : result = .ok () := by
    apply succeeds.mpr
    intro range member
    have run := Media.isRun_of_mem member
    have first := single _ (run.mapped range.startLba ⟨le_rfl, by have := run.positive; omega⟩)
    have one : range.length ≤ 1 := by
      by_contra longer
      have second := single _ (run.mapped (range.startLba + 1) ⟨by omega, by omega⟩)
      omega
    exact (Nat.mul_le_mul_right _ one).trans (by decide)
  exact ⟨after, success ▸ ran, done.uncached⟩

section Tidy

variable {store : NvmKvStore} {pool : UInt32} {sectors extents : List UInt8 → Nat}
  {before after : SystemState ι} {map : PairKey → Option StoredContent} {key : List UInt8}

/-- An address that holds a key held it before, and its sector is as it was. -/
theorem DeletedAll.held (done : DeletedAll store before after) (valid : kvValidateKey key = true)
    {l : Nat} (held : holds store after.store.media pool key l = true) :
    holds store before.store.media pool key l = true ∧
      after.store.media l = before.store.media l := by
  have accepted := of_decide_eq_true valid
  rcases done.trimmed l with gone | same
  · exact absurd gone (mapped_of_holds accepted.1 held)
  · refine ⟨?_, same⟩
    rw [← holds_congr accepted.2 same]
    exact held

/-- A pair is deleted as a whole, or it is kept. -/
theorem Represents.deletedAll_pair (tiled : Tiled store before.store.media pool extents)
    (represents : Represents store (fun other => other = pool) before.store map)
    (known : pool.toNat < store.maxPools) (done : DeletedAll store before after)
    (valid : kvValidateKey key = true) :
    Keeps store after.store.media pool key none ∨
      Keeps store after.store.media pool key (map (pool, key)) := by
  have keeps := represents.keeps pool key rfl valid
  cases content : map (pool, key) with
  | none =>
    left
    rw [content] at keeps
    intro l probed
    rw [Bool.eq_false_iff]
    intro held
    have missing : holds store before.store.media pool key l = false := keeps l probed
    rw [(done.held valid held).1] at missing
    cases missing
  | some stored =>
    rw [content] at keeps
    obtain ⟨once, lba, kept⟩ := keeps
    have whole := tiled.whole key lba valid kept.probed kept.stored.held
    have listed : ⟨lba, extents key⟩ ∈ before.store.media.logicalRanges store.usrData :=
      (tiled.mem_logicalRanges known).mpr ⟨key, whole, rfl⟩
    rcases done.wholly _ listed with gone | stays
    · left
      intro l probed
      rw [Bool.eq_false_iff]
      intro held
      obtain ⟨earlier, same⟩ := done.held valid held
      obtain rfl := once l probed lba kept.probed earlier kept.stored.held
      have some := whole.positive
      exact mapped_of_holds (of_decide_eq_true valid).1 held
        (gone l ⟨le_rfl, Nat.lt_add_of_pos_right some⟩)
    · right
      constructor
      · intro l probed other otherProbed held otherHeld
        exact once l probed other otherProbed (done.held valid held).1
          (done.held valid otherHeld).1
      · refine ⟨lba, kept.congr (of_decide_eq_true valid).2 ?_⟩
        rintro l ⟨low, high⟩
        rw [whole.extent] at high
        exact stays l ⟨low, high⟩

open Classical in
/-- What is left of a map when the keys that are not held any more are gone. -/
noncomputable def leftOf (store : NvmKvStore) (media : Media)
    (map : PairKey → Option StoredContent) (key : PairKey) : Option StoredContent :=
  if Unheld store media key.1 key.2 then none else map key

/-- Of the map of a tidy pool some keys are left, as they were. -/
theorem Represents.deletedAll (tiled : Tiled store before.store.media pool extents)
    (represents : Represents store (fun other => other = pool) before.store map)
    (known : pool.toNat < store.maxPools) (done : DeletedAll store before after) :
    Represents store (fun other => other = pool) after.store
      (leftOf store after.store.media map) := by
  refine ⟨done.idle, ?_⟩
  rintro poolId key rfl valid
  rw [leftOf]
  split
  · assumption
  · rename_i there
    exact (represents.deletedAll_pair tiled known done valid).resolve_left there

end Tidy

/-- `kv_delete_all` in a tidy pool: after every run of puts, lookups and deletes from an empty
store on, it succeeds exactly when no key with a value has a pair that is longer than the trim
limit, and the device has no data then. When it fails, the store is that of a map from which
some keys were taken: no pair is lost by half, and no value is changed. -/
theorem tidy_delete_all (store : NvmKvStore) (iter : LogicalIterRanges) (thread : ι)
    (pool : UInt32) (sectors extents : List UInt8 → Nat) (keys : List UInt8 → Prop)
    (noCache : store.cacheSize = 0) (disabled : store.expiryMode = .disableExpiry)
    (limited : PowerOfTwoLimit store.capabilities)
    (vectors : 2 ≤ store.capabilities.nvmMaxNumIovs) (known : pool.toNat < store.maxPools)
    (start : StoreState ι) (state : SystemState ι) (idle : Idle start)
    (blank : ∀ l, start.media l = none) (trace : List PairEvent)
    (run : TracedRun (UserStep store thread fun call _ =>
      TidyCall store pool sectors extents keys call) start trace state.store) :
    ∃ (result : Except Int Unit) (after : SystemState ι) (left : PairKey → Option StoredContent),
      kvDeleteAll store iter thread true true state = some (result, after) ∧
      (result = .ok () ↔ ∀ key, MapEvent.latest (pool, key) trace ≠ none →
        extents key * store.sectorSize ≤ store.capabilities.maxTrimSize) ∧
      (result = .ok () → ∀ l, after.store.media l = none) ∧
      Represents store (fun other => other = pool) after.store left ∧
      ∀ key, left (pool, key) = none ∨ left (pool, key) = MapEvent.latest (pool, key) trace := by
  obtain ⟨map, makes, tiled, represents, sized⟩ := tiled_of_run noCache disabled limited vectors
    idle blank run
  have latest : map = fun key => MapEvent.latest key trace := funext makes.latest
  subst latest
  obtain ⟨result, after, ran, succeeds, empties, done⟩ :=
    run_kvDeleteAll store iter thread state represents.idle
  refine ⟨result, after, _, ran, ?_, ?_, represents.deletedAll tiled known done, ?_⟩
  · rw [succeeds]
    constructor
    · intro small key there
      obtain ⟨content, has⟩ := Option.ne_none_iff_exists'.mp there
      obtain ⟨lba, whole⟩ := represents.wholePair sized tiled has
      exact small ⟨lba, extents key⟩ ((tiled.mem_logicalRanges known).mpr ⟨key, whole, rfl⟩)
    · intro small range member
      obtain ⟨key, whole, length⟩ := (tiled.mem_logicalRanges known).mp member
      obtain ⟨content, has, _⟩ := represents.content whole
      rw [length]
      apply small key
      rw [has]
      exact Option.some_ne_none content
  · intro success l
    rcases done.trimmed l with gone | same
    · exact gone
    · by_contra mapped
      rw [same] at mapped
      obtain ⟨key, lba, whole, low, high⟩ := tiled.covered l mapped
      obtain ⟨above, below⟩ := whole.inside known
      rw [← same] at mapped
      refine mapped (empties success l ⟨above.trans low, ?_⟩)
      rw [NvmKvStore.usrData]
      dsimp only
      omega
  · intro key
    rw [leftOf]
    split
    · exact Or.inl rfl
    · exact Or.inr rfl

/-- A store with one key is emptied. -/
theorem tidy_delete_all_first : ∃ (state : StoreState Unit) (after : SystemState Unit),
    kvDeleteAll NvmKvStore.terabyteStore ⟨2, by decide⟩ () true true
        { copiesState false with store := state } = some (.ok (), after) ∧
      state.media (NvmKvStore.terabyteStore.probeLba 0 [97] 0) ≠ none ∧
      ∀ l, after.store.media l = none := by
  obtain ⟨state, run, _, held⟩ := @firstKey_stored [97]
    (fun call _ => TidyCall NvmKvStore.terabyteStore 0 (fun _ => 1) (fun _ => 1)
      (fun key => key = [97]) call) (by decide) ⟨_, rfl⟩ sectorKey_tidy
  obtain ⟨result, after, left, ran, succeeds, empties, _⟩ := tidy_delete_all
    NvmKvStore.terabyteStore ⟨2, by decide⟩ () 0 (fun _ => 1) (fun _ => 1)
    (fun key => key = [97]) rfl rfl ⟨⟨10, by decide⟩, by decide⟩ (by decide) (by decide) _
    { copiesState false with store := state } (fun _ => rfl) (fun _ => rfl) _ run
  have success : result = .ok () := succeeds.mpr fun _ _ => by decide
  exact ⟨state, after, success ▸ ran, mapped_of_holds (by decide) held, empties success⟩

end Nvmkv
