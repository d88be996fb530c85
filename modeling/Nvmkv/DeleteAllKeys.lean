import Nvmkv.BatchCalls
import Nvmkv.BlockQueues
import Nvmkv.PoolBookkeeping
import Nvmkv.PoolDeletionScan
import Nvmkv.ReplaceRoundTrip

/-!
# Emptying the data area

`delete_all_keys` iterates over all mapped ranges in portions and trims them in batches. The
two sizes need not divide each other: vectors that do not fill a batch are carried over to the
next portion, and the portion that is not full is the last one. The batches are trimmed under
the protection of the safe list and leave the cache alone.

The account of the two loops is that of the collected blocks of `BlockQueue`: the batches
handed to the device and the vectors left over are the vectors of the ranges in their order.
-/

namespace Nvmkv

variable {ι : Type}

/-- The variables of `delete_all_keys` that outlive one range. -/
structure DeleteAllState where
  retCode : Nat
  iovec : List NvmIovec

/-- The inner loop over the ranges of one portion. -/
def deleteAllPortion (store : NvmKvStore) :
    List NvmBlockRange → DeleteAllState → SystemM (Except NvmErrorCode DeleteAllState)
  | [], state => pure (.ok state)
  | range :: rest, state =>
      if store.capabilities.maxTrimSize < range.length * store.sectorSize then
        pure (.error .internalFailure)
      else
        let iovec := state.iovec ++ [poolRangeIovec store range]
        if iovec.length = store.capabilities.nvmMaxNumIovs then do
          match ← liftStore (store.batchDeleteSync iovec false) with
          | .error code => pure (.error code)
          | .ok () => deleteAllPortion store rest ⟨0, []⟩
        else
          deleteAllPortion store rest { state with iovec := iovec }

/-- The outer loop: one portion of ranges in each round. Every full portion takes a sector at
least off what is left to iterate over, which bounds the rounds. -/
def deleteAllLoop (store : NvmKvStore) (iter : LogicalIterRanges) :
    (fuel : Nat) → NvmBlockRange → List NvmIovec → SystemM (Except NvmErrorCode Nat)
  | 0, _, _ => liftStore neverReturns
  | fuel + 1, search, iovec => do
      match ← nvmLogicalRanges search iter.nvmMaxNumLogicalIterRanges 0 0 with
      | none => pure (.error .internalFailure)
      | some (found, left) =>
          match ← deleteAllPortion store found ⟨found.length, iovec⟩ with
          | .error code => pure (.error code)
          | .ok state =>
              if found.length < iter.nvmMaxNumLogicalIterRanges then
                if state.iovec.length ≠ 0 then
                  match ← liftStore (store.batchDeleteSync state.iovec false) with
                  | .error code => pure (.error code)
                  | .ok () => pure (.ok 0)
                else
                  pure (.ok state.retCode)
              else
                deleteAllLoop store iter fuel left state.iovec

/-- Delete all keys within a range from the media (`delete_all_keys`). The two arrays are what
is allocated. -/
def deleteAllKeys (store : NvmKvStore) (iter : LogicalIterRanges) (startLba discardLength : Nat)
    (rangesAllocated iovecAllocated : Bool) : SystemM (Except NvmErrorCode Nat) :=
  if !rangesAllocated || !iovecAllocated then
    pure (.error .outOfMemory)
  else
    deleteAllLoop store iter (discardLength + 1) ⟨startLba, discardLength⟩ []

section Batches

variable {store : NvmKvStore} {thread : ι}

/-- The state in which a call holds some addresses, or none of them is held. -/
def StoreState.holding (state : StoreState ι) (lbas : List Nat) (holder : Option ι) :
    StoreState ι :=
  { state with safeLbaList := fun lba => if lba ∈ lbas then holder else state.safeLbaList lba }

/-- Free addresses are taken without waiting. -/
theorem run_insertEntries_free {lbas : List Nat} {state : StoreState ι} (apart : lbas.Nodup)
    (free : ∀ lba ∈ lbas, state.safeLbaList lba = none) :
    (insertEntries lbas).run (answer store thread) state =
      some ((), state.holding lbas (some thread)) := by
  induction lbas generalizing state with
  | nil => simp [insertEntries, StoreState.holding]
  | cons lba rest inductionHypothesis =>
    obtain ⟨new, apart⟩ := List.nodup_cons.mp apart
    have freeRest : ∀ other ∈ rest, (state.hold thread lba).safeLbaList other = none := by
      intro other member
      have distinct : other ≠ lba := fun same => new (same ▸ member)
      rw [StoreState.hold]
      dsimp only
      rw [Function.update_of_ne distinct]
      exact free other (List.mem_cons_of_mem _ member)
    simp only [insertEntries, Program.run_bind,
      run_insertEntry_free store thread state (free lba List.mem_cons_self), Option.bind_some,
      inductionHypothesis apart freeRest, Option.some.injEq, Prod.mk.injEq, true_and]
    simp only [StoreState.holding, StoreState.hold, List.mem_cons, Function.update_apply]
    congr 1
    funext other
    by_cases here : other = lba <;> by_cases member : other ∈ rest <;> simp [here, member]

/-- Removing addresses. -/
theorem run_deleteLbas (lbas : List Nat) (state : StoreState ι) :
    (deleteLbas lbas).run (answer store thread) state = some ((), state.holding lbas none) := by
  induction lbas generalizing state with
  | nil => simp [deleteLbas, StoreState.holding]
  | cons lba rest inductionHypothesis =>
    simp only [deleteLbas, Program.run_bind, run_deleteLbaFromSafeList, Option.bind_some,
      inductionHypothesis, Option.some.injEq, Prod.mk.injEq, true_and]
    simp only [StoreState.holding, StoreState.release, List.mem_cons, Function.update_apply]
    congr 1
    funext other
    by_cases here : other = lba <;> by_cases member : other ∈ rest <;> simp [here, member]

/-- The state after some batches of a thread, with no address held in between. -/
def SystemState.afterBatches (state : SystemState ι) (store : NvmKvStore) (thread : ι)
    (batches : List (List NvmIovec)) : SystemState ι :=
  state.onMedia (state.store.media.applyBatch store.sectorSize batches.flatten)
    (state.store.log ++ batches.map fun batch => (thread, batch))

/-- A batch of trims whose addresses are free. -/
theorem run_batchDeleteSync {iovec : List NvmIovec} {state : SystemState ι}
    (apart : (iovec.map (·.iovLba)).Nodup)
    (free : ∀ vector ∈ iovec, state.store.safeLbaList vector.iovLba = none) :
    (liftStore (store.batchDeleteSync iovec false)).run (answerSystem store thread) state =
      some (.ok (), state.afterBatches store thread [iovec]) := by
  have freeLbas : ∀ lba ∈ iovec.map (·.iovLba), state.store.safeLbaList lba = none := by
    intro lba member
    obtain ⟨vector, listed, rfl⟩ := List.mem_map.mp member
    exact free vector listed
  have restored : (fun lba => if lba ∈ iovec.map (·.iovLba) then none
      else if lba ∈ iovec.map (·.iovLba) then some thread else state.store.safeLbaList lba) =
      state.store.safeLbaList := by
    funext lba
    by_cases member : lba ∈ iovec.map (·.iovLba)
    · rw [if_pos member, freeLbas lba member]
    · rw [if_neg member, if_neg member]
  rw [run_liftStore, NvmKvStore.batchDeleteSync]
  simp only [Program.run_bind, run_insertEntries_free apart freeLbas, Option.bind_some,
    run_nvmWritev, Bool.false_eq_true, false_and, if_false, run_deleteLbas, Program.run_pure,
    Option.map_some]
  simp only [StoreState.holding, restored]
  simp only [SystemState.afterBatches, SystemState.onMedia, List.flatten_singleton,
    List.map_cons, List.map_nil]

/-- Batches that are joined are applied one after the other. -/
theorem SystemState.afterBatches_append (state : SystemState ι)
    (batches more : List (List NvmIovec)) :
    (state.afterBatches store thread batches).afterBatches store thread more =
      state.afterBatches store thread (batches ++ more) := by
  simp only [afterBatches, onMedia, List.flatten_append, Media.applyBatch_append,
    List.map_append, List.append_assoc]

/-- Trimming the vectors of some batches changes only sectors that they cover. -/
theorem SystemState.afterBatches_frame (state : SystemState ι) (batches : List (List NvmIovec))
    {lba : Nat}
    (outside : ∀ vector ∈ batches.flatten, ¬Media.Covers store.sectorSize vector lba) :
    (state.afterBatches store thread batches).store.media lba = state.store.media lba :=
  Media.applyBatch_frame outside

/-- The inner loop. Induction follows the ranges: each joins the vectors, and a full batch is
trimmed. -/
theorem run_deleteAllPortion {ranges : List NvmBlockRange} {state : SystemState ι}
    {scan : DeleteAllState}
    (small : ∀ range ∈ ranges,
      range.length * store.sectorSize ≤ store.capabilities.maxTrimSize)
    (apart : ((scan.iovec ++ ranges.map (poolRangeIovec store)).map (·.iovLba)).Nodup)
    (free : ∀ vector ∈ scan.iovec ++ ranges.map (poolRangeIovec store),
      state.store.safeLbaList vector.iovLba = none)
    (room : scan.iovec.length < store.capabilities.nvmMaxNumIovs)
    (nothing : scan.iovec = [] → ranges = [] → scan.retCode = 0) :
    ∃ batches rest code,
      (deleteAllPortion store ranges scan).run (answerSystem store thread) state =
        some (.ok ⟨code, rest⟩, state.afterBatches store thread batches) ∧
      BlockQueue.Collected store.capabilities.nvmMaxNumIovs
        (scan.iovec ++ ranges.map (poolRangeIovec store)) batches rest ∧
      (rest = [] → code = 0) := by
  induction ranges generalizing state scan with
  | nil =>
    refine ⟨[], scan.iovec, scan.retCode, ?_, ?_, fun empty => nothing empty rfl⟩
    · simp only [deleteAllPortion, Program.run_pure, SystemState.afterBatches,
        SystemState.onMedia, List.flatten_nil, Media.applyBatch_nil, List.map_nil,
        List.append_nil]
    · rw [List.map_nil, List.append_nil]
      exact .keep room
  | cons range more inductionHypothesis =>
    have fits : ¬store.capabilities.maxTrimSize < range.length * store.sectorSize :=
      Nat.not_lt.mpr (small range List.mem_cons_self)
    have smallRest := fun other member => small other (List.mem_cons_of_mem range member)
    rw [List.map_cons, List.append_cons] at apart free ⊢
    obtain ⟨iovec, collected⟩ : ∃ iovec, scan.iovec ++ [poolRangeIovec store range] = iovec :=
      ⟨_, rfl⟩
    rw [collected] at apart free ⊢
    by_cases full : iovec.length = store.capabilities.nvmMaxNumIovs
    · rw [List.map_append] at apart
      have trims := @run_batchDeleteSync ι store thread iovec state
        (List.nodup_append.mp apart).1
        fun vector member => free vector (List.mem_append_left _ member)
      obtain ⟨batches, rest, code, ran, blocks, codeRest⟩ := @inductionHypothesis
        (state.afterBatches store thread [iovec]) ⟨0, []⟩ smallRest
        (by rw [List.nil_append]; exact (List.nodup_append.mp apart).2.1)
        (by
          rw [List.nil_append]
          exact fun vector member => free vector (List.mem_append_right _ member))
        store.capabilities.iovsPositive (fun _ _ => rfl)
      refine ⟨iovec :: batches, rest, code, ?_, ?_, codeRest⟩
      · rw [SystemState.afterBatches_append] at ran
        simp only [deleteAllPortion, if_neg fits, collected, full, if_true, Program.run_bind,
          trims, Option.bind_some]
        exact ran
      · exact (BlockQueue.Collected.hand full store.capabilities.iovsPositive).append blocks
    · have short : iovec.length < store.capabilities.nvmMaxNumIovs := by
        rw [← collected, List.length_append, List.length_singleton] at full ⊢
        omega
      have begun : iovec ≠ [] := by
        rw [← collected]
        exact List.append_ne_nil_of_right_ne_nil _ (List.cons_ne_nil _ _)
      obtain ⟨batches, rest, code, ran, blocks, codeRest⟩ := @inductionHypothesis state
        { scan with iovec := iovec } smallRest apart free short
        (fun empty => absurd empty begun)
      refine ⟨batches, rest, code, ?_, blocks, codeRest⟩
      simp only [deleteAllPortion, if_neg fits, collected, full, if_false]
      exact ran

/-- A round of the outer loop goes over a portion of the ranges that are left. The vectors that
are carried over and those of the ranges behind the portion are apart and free again. -/
theorem run_deleteAllRound {found more : List NvmBlockRange} {state : SystemState ι}
    {iovec : List NvmIovec}
    (small : ∀ range ∈ found, range.length * store.sectorSize ≤ store.capabilities.maxTrimSize)
    (apart : ((iovec ++ (found ++ more).map (poolRangeIovec store)).map (·.iovLba)).Nodup)
    (free : ∀ vector ∈ iovec ++ (found ++ more).map (poolRangeIovec store),
      state.store.safeLbaList vector.iovLba = none)
    (room : iovec.length < store.capabilities.nvmMaxNumIovs) :
    ∃ batches carried code,
      (deleteAllPortion store found ⟨found.length, iovec⟩).run (answerSystem store thread) state =
        some (.ok ⟨code, carried⟩, state.afterBatches store thread batches) ∧
      BlockQueue.Collected store.capabilities.nvmMaxNumIovs
        (iovec ++ found.map (poolRangeIovec store)) batches carried ∧
      (carried = [] → code = 0) ∧
      ((carried ++ more.map (poolRangeIovec store)).map (·.iovLba)).Nodup ∧
      ∀ vector ∈ carried ++ more.map (poolRangeIovec store),
        state.store.safeLbaList vector.iovLba = none := by
  rw [List.map_append (f := poolRangeIovec store), ← List.append_assoc] at apart free
  have apartFound := apart
  rw [List.map_append] at apartFound
  obtain ⟨batches, carried, code, ran, blocks, codeRest⟩ := @run_deleteAllPortion ι store thread
    found state ⟨found.length, iovec⟩ small (List.nodup_append.mp apartFound).1
    (fun vector member => free vector (List.mem_append_left _ member)) room
    (fun _ nothing => List.length_eq_zero_iff.mpr nothing)
  dsimp only at blocks
  rw [← blocks.flatten, List.append_assoc] at apart free
  rw [List.map_append] at apart
  exact ⟨batches, carried, code, ran, blocks, codeRest, (List.nodup_append.mp apart).2.1,
    fun vector member => free vector (List.mem_append_right _ member)⟩

/-- Without a filter the device answers with a portion of all ranges. -/
theorem takesPortion_all (store : NvmKvStore) (thread : ι) {state : SystemState ι}
    {search : NvmBlockRange} {maxRanges : Nat} (positive : 0 < maxRanges)
    {ranges : List NvmBlockRange} (listed : state.store.media.logicalRanges search = ranges) :
    ∃ found left, TakesPortion store thread state search maxRanges 0 0 ranges found left :=
  takesPortion store thread positive (by rw [Media.filter_passesFilter_zero]; exact listed)

/-- After a round the vectors so far lie before what is left to iterate over, where the device
lists the ranges behind the portion. -/
theorem TakesPortion.continues {state : SystemState ι} {search left : NvmBlockRange}
    {maxRanges : Nat} {ranges found : List NvmBlockRange} {iovec carried : List NvmIovec}
    {batches : List (List NvmIovec)}
    (portion : TakesPortion store thread state search maxRanges 0 0 ranges found left)
    (earlier : ∀ vector ∈ iovec, ∀ l, Media.Covers store.sectorSize vector l →
      l < search.startLba)
    (flatten : batches.flatten ++ carried = iovec ++ found.map (poolRangeIovec store)) :
    (∀ vector ∈ carried, ∀ l, Media.Covers store.sectorSize vector l → l < left.startLba) ∧
      (state.afterBatches store thread batches).store.media.logicalRanges left =
        ranges.drop maxRanges := by
  have passed := portion.passed earlier fun vector member => List.mem_map.mp member
  rw [← flatten] at passed
  refine ⟨fun vector member => passed vector (List.mem_append_right _ member), ?_⟩
  rw [← portion.rest (state.afterBatches store thread batches).store.media,
    Media.filter_passesFilter_zero]
  intro l above
  apply SystemState.afterBatches_frame
  intro vector member covers
  have below := passed vector (List.mem_append_left _ member) l covers
  omega

/-- The outer loop. Induction is on the rounds, and each full portion takes ranges off what is
left. -/
theorem run_deleteAllLoop (iter : LogicalIterRanges) {fuel : Nat} {search : NvmBlockRange}
    {state : SystemState ι} {iovec : List NvmIovec} {ranges : List NvmBlockRange}
    (enough : search.length < fuel) (listed : state.store.media.logicalRanges search = ranges)
    (small : ∀ range ∈ ranges,
      range.length * store.sectorSize ≤ store.capabilities.maxTrimSize)
    (apart : ((iovec ++ ranges.map (poolRangeIovec store)).map (·.iovLba)).Nodup)
    (free : ∀ vector ∈ iovec ++ ranges.map (poolRangeIovec store),
      state.store.safeLbaList vector.iovLba = none)
    (earlier : ∀ vector ∈ iovec, ∀ l, Media.Covers store.sectorSize vector l →
      l < search.startLba)
    (room : iovec.length < store.capabilities.nvmMaxNumIovs) :
    ∃ batches,
      (deleteAllLoop store iter fuel search iovec).run (answerSystem store thread) state =
        some (.ok 0, state.afterBatches store thread batches) ∧
      batches.flatten = iovec ++ ranges.map (poolRangeIovec store) ∧
      ∀ batch ∈ batches, 0 < batch.length ∧ batch.length ≤ store.capabilities.nvmMaxNumIovs := by
  induction fuel generalizing search state iovec ranges with
  | zero => exact absurd enough (Nat.not_lt_zero _)
  | succ fuel inductionHypothesis =>
    obtain ⟨found, left, portion⟩ := takesPortion_all store thread iter.positive listed
    have calls := portion.calls
    rw [← portion.split] at small apart free
    obtain ⟨batches, carried, code, ran, blocks, codeRest, apartRest, freeRest⟩ :=
      @run_deleteAllRound ι store thread found _ state iovec
        (fun range member => small range (List.mem_append_left _ member)) apart free room
    have sized := fun batch (member : batch ∈ batches) =>
      blocks.sized store.capabilities.iovsPositive member
    have owed : batches.flatten ++ (carried ++
        (ranges.drop iter.nvmMaxNumLogicalIterRanges).map (poolRangeIovec store)) =
        iovec ++ ranges.map (poolRangeIovec store) := by
      rw [← List.append_assoc, blocks.flatten, List.append_assoc, ← List.map_append, portion.split]
    by_cases short : found.length < iter.nvmMaxNumLogicalIterRanges
    · rw [portion.nothing short, List.map_nil, List.append_nil] at apartRest freeRest owed
      by_cases empty : carried = []
      · refine ⟨batches, ?_, ?_, sized⟩
        · simp only [deleteAllLoop, Program.run_bind, calls, Option.bind_some, ran, if_pos short,
            empty, List.length_nil, ne_eq, not_true_eq_false, if_false, Program.run_pure,
            codeRest empty]
        · rw [← owed, empty, List.append_nil]
      · have some : 0 < carried.length := List.length_pos_iff.mpr empty
        have trims := @run_batchDeleteSync ι store thread carried
          (state.afterBatches store thread batches) apartRest freeRest
        refine ⟨batches ++ [carried], ?_, ?_, ?_⟩
        · simp only [deleteAllLoop, Program.run_bind, calls, Option.bind_some, ran, if_pos short,
            ne_eq, some.ne', not_false_eq_true, if_true, trims, Program.run_pure,
            SystemState.afterBatches_append]
        · rw [List.flatten_append, List.flatten_singleton, owed]
        · intro batch member
          rcases List.mem_append.mp member with front | back
          · exact sized batch front
          · rw [List.mem_singleton.mp back]
            exact ⟨some, blocks.room.le⟩
    · have shorter := portion.shorter (portion.nonempty iter.positive short)
      obtain ⟨passed, listedLeft⟩ := portion.continues earlier blocks.flatten
      obtain ⟨further, continued, flatten, later⟩ := @inductionHypothesis left
        (state.afterBatches store thread batches) carried
        (ranges.drop iter.nvmMaxNumLogicalIterRanges)
        (by omega) listedLeft
        (fun range member => small range (List.mem_append_right _ member)) apartRest freeRest
        passed blocks.room
      refine ⟨batches ++ further, ?_, ?_, ?_⟩
      · rw [SystemState.afterBatches_append] at continued
        simp only [deleteAllLoop, Program.run_bind, calls, Option.bind_some, ran, if_neg short]
        exact continued
      · rw [List.flatten_append, flatten, owed]
      · intro batch member
        rcases List.mem_append.mp member with front | back
        · exact sized batch front
        · exact later batch back

end Batches

/-- With no device error and no other call, `delete_all_keys` returns success when no mapped
range is longer than the trim limit. No sector of the area is mapped then, and what was handed
to the device is one vector for each range, in the order of the ranges, in batches of the size
of the array and a last one that may be shorter. -/
theorem delete_all_keys_empties (store : NvmKvStore) (iter : LogicalIterRanges) (thread : ι)
    (state : SystemState ι) (startLba discardLength : Nat)
    (small : ∀ range ∈ state.store.media.logicalRanges ⟨startLba, discardLength⟩,
      range.length * store.sectorSize ≤ store.capabilities.maxTrimSize)
    (free : ∀ range ∈ state.store.media.logicalRanges ⟨startLba, discardLength⟩,
      state.store.safeLbaList range.startLba = none) :
    ∃ (after : SystemState ι) (batches : List (List NvmIovec)),
      (deleteAllKeys store iter startLba discardLength true true).run (answerSystem store thread)
        state = some (.ok 0, after) ∧
      (∀ lba, startLba ≤ lba → lba < startLba + discardLength → after.store.media lba = none) ∧
      after.store.log = state.store.log ++ batches.map (fun batch => (thread, batch)) ∧
      batches.flatten = (state.store.media.logicalRanges ⟨startLba, discardLength⟩).map
        (poolRangeIovec store) ∧
      (batches.flatten.map (·.iovLba)).Nodup ∧
      ∀ batch ∈ batches, 0 < batch.length ∧
        batch.length ≤ store.capabilities.nvmMaxNumIovs := by
  have ordered := @Media.logicalRanges_pairwise state.store.media ⟨startLba, discardLength⟩
  obtain ⟨ranges, listed⟩ : ∃ ranges,
    state.store.media.logicalRanges ⟨startLba, discardLength⟩ = ranges := ⟨_, rfl⟩
  rw [listed] at small free ordered ⊢
  have apart : ((ranges.map (poolRangeIovec store)).map (·.iovLba)).Nodup := by
    rw [List.map_map, List.Nodup, List.pairwise_map]
    refine ordered.imp fun {first second} before => ?_
    change first.startLba ≠ second.startLba
    omega
  obtain ⟨batches, ran, flatten, sized⟩ := @run_deleteAllLoop ι store thread iter
    (discardLength + 1) ⟨startLba, discardLength⟩ state [] ranges (Nat.lt_succ_self _) listed small
    apart
    (by
      intro vector member
      obtain ⟨range, found, rfl⟩ := List.mem_map.mp member
      exact free range found)
    (fun _ absent => absurd absent List.not_mem_nil) store.capabilities.iovsPositive
  rw [List.nil_append] at flatten
  refine ⟨_, batches, ran, ?_, rfl, flatten, ?_, sized⟩
  · intro lba above below
    rw [SystemState.afterBatches, SystemState.onMedia_media, flatten]
    by_cases covered : ∃ vector ∈ ranges.map (poolRangeIovec store),
        Media.Covers store.sectorSize vector lba
    · refine Media.applyBatch_trims ?_ covered
      intro vector member
      obtain ⟨range, _, rfl⟩ := List.mem_map.mp member
      rfl
    · rw [Media.applyBatch_frame fun vector member covers => covered ⟨vector, member, covers⟩]
      by_contra mapped
      obtain ⟨range, member, covers⟩ := @Media.logicalRanges_cover state.store.media
        ⟨startLba, discardLength⟩ lba ⟨above, below⟩ (Option.isSome_iff_ne_none.mpr mapped)
      rw [listed] at member
      exact covered ⟨_, List.mem_map_of_mem member, (poolRangeIovec_covers store).mpr covers⟩
  · rw [flatten]
    exact apart

/-- A store with every other sector of an area of eight mapped, on a device that returns two
ranges at a time. -/
theorem delete_all_keys_empties_every_other :
    ∃ (after : SystemState Unit) (batches : List (List NvmIovec)),
      (deleteAllKeys NvmKvStore.terabyteStore ⟨2, by decide⟩ 10 8 true true).run
        (answerSystem NvmKvStore.terabyteStore ())
        ⟨openedTerabyte fun lba => if lba % 2 = 0 then some fun _ => 0 else none,
          openedPools.mgr, openedPools.media⟩ = some (.ok 0, after) ∧
      (∀ lba, 10 ≤ lba → lba < 10 + 8 → after.store.media lba = none) ∧
      after.store.log = batches.map (fun batch => ((), batch)) ∧
      batches.flatten = (Media.logicalRanges
        (fun lba => if lba % 2 = 0 then some fun _ => 0 else none) ⟨10, 8⟩).map
        (poolRangeIovec NvmKvStore.terabyteStore) ∧
      (batches.flatten.map (·.iovLba)).Nodup ∧
      ∀ batch ∈ batches, 0 < batch.length ∧ batch.length ≤ 64 :=
  delete_all_keys_empties NvmKvStore.terabyteStore ⟨2, by decide⟩ ()
    ⟨openedTerabyte fun lba => if lba % 2 = 0 then some fun _ => 0 else none, openedPools.mgr,
      openedPools.media⟩ 10 8 (by decide) (by intro _ _; rfl)

end Nvmkv
