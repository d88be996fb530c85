import Nvmkv.BufferedCalls
import Nvmkv.IterationEnd
import Nvmkv.PoolDeletionCompletes

/-!
# The places of iterators

A store has a fixed number of places for the iterators of its clients. `kv_begin` takes the
first free one, whose number is the id of the iterator, and gives it back itself when the
iteration does not begin; `kv_iteration_end` gives it back otherwise. Both free the place with
`free_iterator`, which first asks `validate_iter` whether the iterator may be used. An iterator
may be used while its pool is in use, so the iterator of a pool that was deleted meanwhile
keeps its place: the call to end it fails, and so does every later one unless the pool's id is
in use again.

Calls come one after another here, with anything else that happens to the store between them.
It is noted which ids a client has got and not ended yet. No two of them are the same in any
run, because their places are taken. Where each iteration is ended while its pool is in use,
no other place is taken, and as many iterations as there are places can be begun again.
-/

namespace Nvmkv

variable {ι : Type}

/-- The code when no place is free (`NVM_ERR_MAX_LIMIT_REACHED`). -/
def maxLimitReached : Int := -87

/-- The ids of the clients' iterators. The ids behind them are those of the store's own
threads. -/
def regularIds : List Int := (List.range nvmKvMaxIterators.toNat).map Int.ofNat

/-- The iterators by their ids (`m_iter`). -/
abbrev IteratorTable := Int → Option PoolIterator

namespace IteratorTable

variable (store : NvmKvStore) (table : IteratorTable) (itId : Int)

/-- Take the first free place for an iterator, whose memory may have run out
(`alloc_iter`). -/
def allocIter (memory : Option KvBatchIterator) (poolId : UInt32) (poolHash : Nat) :
    Except Int Int × IteratorTable :=
  match memory with
  | none => (.error NvmErrorCode.outOfMemory.retCode, table)
  | some memory =>
      match regularIds.find? fun itId => (table itId).isNone with
      | none => (.error maxLimitReached, table)
      | some itId =>
          (.ok itId,
            Function.update table itId (some (PoolIterator.allocIter memory poolId poolHash)))

/-- The iterator with an id, if it may be used (`validate_iter`). -/
def lookUp : SystemM (Option PoolIterator) := do
  if itId < 0 ∨ nvmKvMaxIterators ≤ itId then
    pure none
  else
    match table itId with
    | none => pure none
    | some it => do
        if ← it.validateIter then pure (some it) else pure none

/-- Set an iterator to the start of the data area (`init_iter`). -/
def initIter (iter : LogicalIterRanges) : SystemM (Except Int Unit × IteratorTable) := do
  match ← table.lookUp itId with
  | none => pure (.error NvmErrorCode.invalidInput.retCode, table)
  | some it =>
      let it := { it with
        toKvBatchIterator := it.initIter store.usrData.startLba store.usrData.length
          iter.nvmMaxNumLogicalIterRanges store.poolMask }
      pure (.ok (), Function.update table itId (some it))

/-- Set an iterator to the next range of its pool (`iter_over_pool`). -/
def iterOverPool (poolIdBuf : Option Region) : SystemM (Except Int Unit × IteratorTable) := do
  match ← table.lookUp itId with
  | none => pure (.error NvmErrorCode.invalidInput.retCode, table)
  | some it =>
      let (moved, it) ← it.iterOverPoolLoop store poolIdBuf (it.roundsLeft + 1)
      pure (moved, Function.update table itId (some it))

/-- Free the place of an iterator (`free_iterator`). -/
def freeIterator : SystemM (Except Int Unit × IteratorTable) := do
  match ← table.lookUp itId with
  | none => pure (.error NvmErrorCode.invalidInput.retCode, table)
  | some _ => pure (.ok (), Function.update table itId none)

/-- Initialise a new iterator and set it to the first range of its pool. -/
def startIter (iter : LogicalIterRanges) (poolIdBuf : Option Region) :
    SystemM (Except Int Unit × IteratorTable) := do
  let (initialised, table) ← table.initIter store itId iter
  match initialised with
  | .error code => pure (.error code, table)
  | .ok () => table.iterOverPool store itId poolIdBuf

/-- Begin an iteration over a pool (`kv_begin`). The result is the id of the iterator. -/
def kvBegin (iter : LogicalIterRanges) (poolId : UInt32) (memory : Option KvBatchIterator)
    (poolIdBuf : Option Region) : SystemM (Except Int Int × IteratorTable) := do
  if !(← liftStore (kvValidatePoolId poolId)) then
    pure (.error NvmErrorCode.invalidInput.retCode, table)
  else
    match table.allocIter memory poolId (store.poolIdHash poolId) with
    | (.error code, table) => pure (.error code, table)
    | (.ok itId, table) =>
        let (begun, table) ← table.startIter store itId iter poolIdBuf
        match begun with
        | .ok () => pure (.ok itId, table)
        | .error code =>
            let (_, table) ← table.freeIterator itId
            pure (.error code, table)

end IteratorTable

/-- A call, with the memory it gets. Creating and deleting pools are calls on the same store;
what its threads and the other calls do is any program. -/
inductive IterationCall where
  | kvBegin (poolId : UInt32) (memory : Option KvBatchIterator) (poolIdBuf : Option Region)
  | kvNext (itId : Int) (poolIdBuf : Option Region)
  | kvIterationEnd (itId : Int)
  | kvPoolCreate (poolTag : Option NvmKvPoolTag)
  | kvPoolDelete (poolId : UInt32)
  | other (program : SystemM Unit)

/-- The store with its iterators, and the ids that clients have got from `kv_begin` and for
which they have not called `kv_iteration_end` yet. -/
structure IterationState (ι : Type) where
  system : SystemState ι
  iter : IteratorTable
  live : List Int

/-- A store whose clients have no iterators yet. -/
def IterationState.opened (system : SystemState ι) : IterationState ι where
  system := system
  iter := fun _ => none
  live := []

namespace IterationCall

variable (store : NvmKvStore) (iter : LogicalIterRanges)

/-- The program of a call on a table of iterators. -/
def program (table : IteratorTable) : IterationCall → SystemM (Except Int Int × IteratorTable)
  | .kvBegin poolId memory poolIdBuf => table.kvBegin store iter poolId memory poolIdBuf
  | .kvNext itId poolIdBuf => do
      let (moved, table) ← table.iterOverPool store itId poolIdBuf
      pure (moved.map fun _ => 0, table)
  | .kvIterationEnd itId => do
      let (freed, table) ← table.freeIterator itId
      pure (freed.map fun _ => 0, table)
  | .kvPoolCreate poolTag => do
      let created ← askSystem (.createPool poolTag)
      pure ((created.map Int.ofNat).mapError NvmErrorCode.retCode, table)
  | .kvPoolDelete poolId => do
      let deleted ← NvmKvStoreMgr.kvPoolDelete store poolId
      pure ((deleted.map fun _ => 0).mapError NvmErrorCode.retCode, table)
  | .other program => do
      program
      pure (.ok 0, table)

/-- The live ids after a call with its result. -/
def live (ids : List Int) : IterationCall → Except Int Int → List Int
  | .kvBegin _ _ _, .ok itId => itId :: ids
  | .kvIterationEnd itId, _ => ids.erase itId
  | _, _ => ids

/-- A call takes a state to the next one. -/
def run (thread : ι) (call : IterationCall) (state : IterationState ι) :
    Option (Except Int Int × IterationState ι) :=
  ((call.program store iter state.iter).run (answerSystem store thread) state.system).map
    fun ran => (ran.1.1, ⟨ran.2, ran.1.2, call.live state.live ran.1.1⟩)

/-- Calls one after another, with the result of each. -/
def runAll (thread : ι) :
    List IterationCall → IterationState ι → Option (List (Except Int Int) × IterationState ι)
  | [], state => some ([], state)
  | call :: calls, state => do
      let (result, next) ← call.run store iter thread state
      let (results, after) ← runAll thread calls next
      pure (result :: results, after)

end IterationCall

/-- The states that runs reach whose calls are all among the allowed ones. -/
inductive IterationReached (store : NvmKvStore) (iter : LogicalIterRanges) (thread : ι)
    (allowed : IterationState ι → IterationCall → Prop) (first : IterationState ι) :
    IterationState ι → Prop
  | first : IterationReached store iter thread allowed first first
  | step {state next : IterationState ι} {call : IterationCall} {result : Except Int Int}
      (before : IterationReached store iter thread allowed first state)
      (permitted : allowed state call)
      (ran : call.run store iter thread state = some (result, next)) :
      IterationReached store iter thread allowed first next

/-- A live iterator is ended while its pool is in use. -/
def EndsInUse (state : IterationState ι) (call : IterationCall) : Prop :=
  ∀ itId ∈ state.live, call = .kvIterationEnd itId →
    ∀ it, state.iter itId = some it → it.Valid state.system

/-- A pool in use that has a range on the media to which an iteration comes. -/
structure NonEmptyPool (store : NvmKvStore) (state : SystemState ι) (poolId : UInt32) : Prop where
  used : poolStatus state.store.inUse state.store.deleted poolId = .poolInUse
  reached : ∃ range ∈ state.store.media.logicalRanges store.usrData,
    ofPool store state.store.media poolId range = true ∧
      ∀ other ∈ state.store.media.logicalRanges store.usrData,
        endsIteration store state.store.media poolId other = true →
        range.startLba < other.startLba

/-- A call that begins an iteration over such a pool and gets its memory. -/
inductive BeginsOnNonEmpty (store : NvmKvStore) (state : SystemState ι) : IterationCall → Prop
  | begin (poolId : UInt32) (memory : KvBatchIterator) (poolIdBuf : Region)
      (nonEmpty : NonEmptyPool store state poolId) :
      BeginsOnNonEmpty store state (.kvBegin poolId (some memory) (some poolIdBuf))

/-- No place is lost: live iterators have different ids, exactly their places are taken, and
when there are none, as many iterations as there are places begin. -/
structure KeepsSlots (store : NvmKvStore) (iter : LogicalIterRanges) (thread : ι)
    (state : IterationState ι) : Prop where
  distinct : state.live.Nodup
  occupied : ∀ itId, (state.iter itId).isSome = true ↔ itId ∈ state.live
  again : state.live = [] → ∀ calls : List IterationCall,
    calls.length = nvmKvMaxIterators.toNat →
    (∀ call ∈ calls, BeginsOnNonEmpty store state.system call) →
    ∃ (ids : List Int) (after : IterationState ι),
      IterationCall.runAll store iter thread calls state = some (ids.map .ok, after) ∧ ids.Nodup

/-- The ids of iterators are those that the checks accept. -/
theorem mem_regularIds {itId : Int} :
    itId ∈ regularIds ↔ ¬(itId < 0 ∨ nvmKvMaxIterators ≤ itId) := by
  simp only [regularIds, nvmKvMaxIterators, List.mem_map, List.mem_range]
  constructor
  · rintro ⟨i, inside, rfl⟩
    rw [Int.ofNat_eq_natCast]
    omega
  · intro inside
    exact ⟨itId.toNat, by omega, by rw [Int.ofNat_eq_natCast]; omega⟩

/-- No id is there twice. -/
theorem regularIds_nodup : regularIds.Nodup :=
  List.nodup_range.map fun _ _ same => Int.ofNat.inj same

/-- There are as many as iterators. -/
@[simp] theorem regularIds_length : regularIds.length = nvmKvMaxIterators.toNat := by
  rw [regularIds, List.length_map, List.length_range]

namespace IteratorTable

variable {store : NvmKvStore} {thread : ι} {state : SystemState ι} {table : IteratorTable}
  {itId : Int}

/-- The iterators of a table fetch some ranges at a time. -/
def Fetching (table : IteratorTable) : Prop :=
  ∀ itId it, table itId = some it → 0 < it.maxRanges

/-- An iterator that fetches at least one range may be put into the table. -/
theorem Fetching.update (fetching : table.Fetching) {it : PoolIterator}
    (portions : 0 < it.maxRanges) : Fetching (Function.update table itId (some it)) := by
  intro other found here
  by_cases same : other = itId
  · rw [same, Function.update_self, Option.some.injEq] at here
    exact here ▸ portions
  · rw [Function.update_of_ne same] at here
    exact fetching other found here

/-- One may always be taken out. -/
theorem Fetching.free (fetching : table.Fetching) :
    Fetching (Function.update table itId none) := by
  intro other found here
  by_cases same : other = itId
  · rw [same, Function.update_self] at here
    cases here
  · rw [Function.update_of_ne same] at here
    exact fetching other found here

/-- A valid iterator with an id of clients is found. -/
theorem run_lookUp_valid {it : PoolIterator} (regular : itId ∈ regularIds)
    (here : table itId = some it) (valid : it.Valid state) :
    (table.lookUp itId).run (answerSystem store thread) state = some (some it, state) := by
  simp only [lookUp, if_neg (mem_regularIds.mp regular), here, Program.run_bind,
    valid.run_validateIter, Option.bind_some, if_true, Program.run_pure]

/-- Nothing else is. -/
theorem run_lookUp (thread : ι) (state : SystemState ι) (table : IteratorTable) (itId : Int) :
    (table.lookUp itId).run (answerSystem store thread) state = some (none, state) ∨
      ∃ it, table itId = some it ∧ itId ∈ regularIds ∧ it.Valid state ∧
        (table.lookUp itId).run (answerSystem store thread) state = some (some it, state) := by
  by_cases regular : itId ∈ regularIds
  · cases here : table itId with
    | none =>
      refine Or.inl ?_
      simp only [lookUp, if_neg (mem_regularIds.mp regular), here, Program.run_pure]
    | some it =>
      by_cases valid : it.Valid state
      · exact Or.inr ⟨it, rfl, regular, valid, run_lookUp_valid regular here valid⟩
      · refine Or.inl ?_
        simp only [lookUp, if_neg (mem_regularIds.mp regular), here, Program.run_bind,
          PoolIterator.run_validateIter_invalid valid, Option.bind_some, Bool.false_eq_true,
          if_false, Program.run_pure]
  · rw [mem_regularIds, not_not] at regular
    refine Or.inl ?_
    simp only [lookUp, if_pos regular, Program.run_pure]

/-- The place of a valid iterator is freed. -/
theorem run_freeIterator_valid {it : PoolIterator} (regular : itId ∈ regularIds)
    (here : table itId = some it) (valid : it.Valid state) :
    (table.freeIterator itId).run (answerSystem store thread) state =
      some ((.ok (), Function.update table itId none), state) := by
  simp only [freeIterator, Program.run_bind, run_lookUp_valid regular here valid,
    Option.bind_some, Program.run_pure]

/-- A valid iterator is moved on where it is. -/
theorem run_iterOverPool_valid {it : PoolIterator} (regular : itId ∈ regularIds)
    (here : table itId = some it) (valid : it.Valid state) (portions : 0 < it.maxRanges)
    (poolIdBuf : Option Region) :
    ∃ verdict after, (it.iterOverPoolLoop store poolIdBuf (it.roundsLeft + 1)).run
        (answerSystem store thread) state = some ((verdict, after), state) ∧
      (table.iterOverPool store itId poolIdBuf).run (answerSystem store thread) state =
        some ((verdict, Function.update table itId (some after)), state) ∧
      after.poolId = it.poolId ∧ 0 < after.maxRanges := by
  obtain ⟨verdict, after, looped, moved⟩ := @PoolIterator.Valid.run_loop ι store thread state
    poolIdBuf it valid portions (it.roundsLeft + 1) (Nat.lt_succ_of_le it.rest_length_le)
  refine ⟨verdict, after, looped, ?_, moved.follows.pool, moved.follows.size ▸ portions⟩
  simp only [iterOverPool, Program.run_bind, run_lookUp_valid regular here valid,
    Option.bind_some, looped, Program.run_pure]

/-- The id that is found first is regular and has no iterator. -/
theorem first_free (found : regularIds.find? (fun itId => (table itId).isNone) = some itId) :
    itId ∈ regularIds ∧ table itId = none := by
  have first := List.find?_some found
  exact ⟨List.mem_of_find?_eq_some found, Option.isNone_iff_eq_none.mp first⟩

/-- A new iterator over a pool, set to the start of the data area. -/
def freshIter (store : NvmKvStore) (iter : LogicalIterRanges) (poolId : UInt32)
    (memory : KvBatchIterator) : PoolIterator :=
  let it := PoolIterator.allocIter memory poolId (store.poolIdHash poolId)
  { it with
    toKvBatchIterator := it.initIter store.usrData.startLba store.usrData.length
      iter.nvmMaxNumLogicalIterRanges store.poolMask }

/-- What becomes of a table when an iteration begins or does not. -/
inductive BeginsTo (table : IteratorTable) (poolId : UInt32) :
    Except Int Int → IteratorTable → Prop
  | refused (code : Int) : BeginsTo table poolId (.error code) table
  | begun (itId : Int) (it : PoolIterator) (regular : itId ∈ regularIds)
      (free : table itId = none) (pool : it.poolId = poolId) (portions : 0 < it.maxRanges) :
      BeginsTo table poolId (.ok itId) (Function.update table itId (some it))

variable {iter : LogicalIterRanges} {poolId : UInt32} {poolIdBuf : Option Region}

/-- The first free place is taken, and freed again when the first range is not found: the pool
is in use then as it was before. -/
theorem run_kvBegin_found {memory : KvBatchIterator}
    (valid : poolStatus state.store.inUse state.store.deleted poolId = .poolInUse ∨
      poolId = poolIdAll)
    (found : regularIds.find? (fun itId => (table itId).isNone) = some itId) :
    ∃ verdict after, ((freshIter store iter poolId memory).iterOverPoolLoop store poolIdBuf
        ((freshIter store iter poolId memory).roundsLeft + 1)).run (answerSystem store thread)
        state = some ((verdict, after), state) ∧
      after.poolId = poolId ∧ 0 < after.maxRanges ∧
      (table.kvBegin store iter poolId (some memory) poolIdBuf).run (answerSystem store thread)
        state = some (match verdict with
          | .ok () => (.ok itId, Function.update table itId (some after))
          | .error code => (.error code, table), state) := by
  obtain ⟨regular, free⟩ := first_free found
  have accepted : decide (poolStatus state.store.inUse state.store.deleted poolId = .poolInUse ∨
      poolId = 0xFFFFFFFF) = true := decide_eq_true valid
  obtain ⟨taken, placed⟩ : ∃ taken : IteratorTable, taken = Function.update table itId
      (some (PoolIterator.allocIter memory poolId (store.poolIdHash poolId))) := ⟨_, rfl⟩
  have here : taken itId = some (PoolIterator.allocIter memory poolId
      (store.poolIdHash poolId)) := by
    rw [placed, Function.update_self]
  have initialised : (taken.initIter store itId iter).run (answerSystem store thread) state =
      some ((.ok (), Function.update table itId (some (freshIter store iter poolId memory))),
        state) := by
    have replaced : Function.update taken itId (some (freshIter store iter poolId memory)) =
        Function.update table itId (some (freshIter store iter poolId memory)) := by
      rw [placed, Function.update_idem]
    rw [← replaced]
    simp only [initIter, Program.run_bind, run_lookUp_valid regular here valid,
      Option.bind_some, Program.run_pure, freshIter]
  obtain ⟨verdict, after, looped, moved, pool, portions⟩ := @run_iterOverPool_valid ι store thread
    state (Function.update table itId (some (freshIter store iter poolId memory))) itId
    (freshIter store iter poolId memory) regular (Function.update_self ..) valid iter.positive
    poolIdBuf
  rw [Function.update_idem] at moved
  have started : (taken.startIter store itId iter poolIdBuf).run (answerSystem store thread)
      state = some ((verdict, Function.update table itId (some after)), state) := by
    simp only [startIter, Program.run_bind, initialised, Option.bind_some, moved]
  refine ⟨verdict, after, looped, pool, portions, ?_⟩
  have allocated : table.allocIter (some memory) poolId (store.poolIdHash poolId) =
      (.ok itId, taken) := by
    rw [placed, allocIter]
    simp only [found]
  cases verdict with
  | ok _ =>
    simp only [kvBegin, Program.run_bind, run_liftStore, run_kvValidatePoolId, accepted,
      Option.map_some, Option.bind_some, Bool.not_true, Bool.false_eq_true, if_false, allocated,
      started, Program.run_pure]
  | error code =>
    have lasting : after.Valid state := by
      rw [PoolIterator.Valid, pool]
      exact valid
    have freed := @run_freeIterator_valid ι store thread state
      (Function.update table itId (some after)) itId after regular (Function.update_self ..)
      lasting
    rw [Function.update_idem, ← free, Function.update_eq_self] at freed
    simp only [kvBegin, Program.run_bind, run_liftStore, run_kvValidatePoolId, accepted,
      Option.map_some, Option.bind_some, Bool.not_true, Bool.false_eq_true, if_false, allocated,
      started, freed, Program.run_pure]

/-- An iteration begins at a free place, or the table stays as it was. -/
theorem run_kvBegin (thread : ι) (state : SystemState ι) (table : IteratorTable)
    (memory : Option KvBatchIterator) :
    ∃ result after, (table.kvBegin store iter poolId memory poolIdBuf).run
        (answerSystem store thread) state = some ((result, after), state) ∧
      BeginsTo table poolId result after := by
  by_cases valid : poolStatus state.store.inUse state.store.deleted poolId = .poolInUse ∨
      poolId = poolIdAll
  · have accepted : decide (poolStatus state.store.inUse state.store.deleted poolId = .poolInUse ∨
        poolId = 0xFFFFFFFF) = true := decide_eq_true valid
    cases memory with
    | none =>
      refine ⟨_, table, ?_, .refused NvmErrorCode.outOfMemory.retCode⟩
      simp only [kvBegin, Program.run_bind, run_liftStore, run_kvValidatePoolId, accepted,
        Option.map_some, Option.bind_some, Bool.not_true, Bool.false_eq_true, if_false, allocIter,
        Program.run_pure]
    | some memory =>
      cases found : regularIds.find? fun itId => (table itId).isNone with
      | none =>
        refine ⟨_, table, ?_, .refused maxLimitReached⟩
        simp only [kvBegin, Program.run_bind, run_liftStore, run_kvValidatePoolId, accepted,
          Option.map_some, Option.bind_some, Bool.not_true, Bool.false_eq_true, if_false,
          allocIter, found, Program.run_pure]
      | some itId =>
        obtain ⟨verdict, after, _, pool, portions, ran⟩ :=
          @run_kvBegin_found ι store thread state table itId iter poolId poolIdBuf memory valid
            found
        obtain ⟨regular, free⟩ := first_free found
        cases verdict with
        | error code => exact ⟨_, _, ran, .refused code⟩
        | ok _ => exact ⟨_, _, ran, .begun itId after regular free pool portions⟩
  · have refused : decide (poolStatus state.store.inUse state.store.deleted poolId = .poolInUse ∨
        poolId = 0xFFFFFFFF) = false := decide_eq_false valid
    refine ⟨_, table, ?_, .refused NvmErrorCode.invalidInput.retCode⟩
    simp only [kvBegin, Program.run_bind, run_liftStore, run_kvValidatePoolId, refused,
      Option.map_some, Option.bind_some, Bool.not_false, if_true, Program.run_pure]

end IteratorTable

variable {store : NvmKvStore} {iter : LogicalIterRanges} {thread : ι}
  {state next : IterationState ι} {call : IterationCall} {result : Except Int Int}

/-- What a call does to the places of iterators. A place that an iterator keeps although its
iteration was ended is lost to clients. -/
inductive Advances (state next : IterationState ι) : IterationCall → Prop
  | kept (call : IterationCall) (fetching : next.iter.Fetching)
      (same : ∀ itId, (next.iter itId).isSome = (state.iter itId).isSome)
      (live : next.live = state.live) : Advances state next call
  | begun (call : IterationCall) (itId : Int) (it : PoolIterator) (regular : itId ∈ regularIds)
      (free : state.iter itId = none) (portions : 0 < it.maxRanges)
      (taken : next.iter = Function.update state.iter itId (some it))
      (live : next.live = itId :: state.live) : Advances state next call
  | freed (itId : Int) (emptied : next.iter = Function.update state.iter itId none)
      (live : next.live = state.live.erase itId) : Advances state next (.kvIterationEnd itId)
  | lost (itId : Int) (iter : next.iter = state.iter) (live : next.live = state.live.erase itId)
      (unusable : itId ∈ regularIds → ∀ it, state.iter itId = some it → ¬it.Valid state.system) :
      Advances state next (.kvIterationEnd itId)

/-- A call that leaves the table and the live ids alone. -/
theorem Advances.unchanged (fetching : state.iter.Fetching) (iter : next.iter = state.iter)
    (live : next.live = state.live) : Advances state next call :=
  .kept call (iter ▸ fetching) (fun itId => congrArg (fun table => (table itId).isSome) iter) live

/-- Cases are those of the calls. -/
theorem advances_of_run (fetching : state.iter.Fetching)
    (ran : call.run store iter thread state = some (result, next)) :
    Advances state next call := by
  rw [IterationCall.run, Option.map_eq_some_iff] at ran
  obtain ⟨⟨⟨code, table⟩, system⟩, called, reached⟩ := ran
  cases reached
  cases call with
  | kvBegin poolId memory poolIdBuf =>
    obtain ⟨begun, after, ran, begins⟩ := @IteratorTable.run_kvBegin ι store iter poolId poolIdBuf
      thread state.system state.iter memory
    rw [IterationCall.program, ran] at called
    cases called
    cases begins with
    | refused => exact .unchanged fetching rfl rfl
    | begun itId it regular free _ portions =>
      exact .begun _ itId it regular free portions rfl rfl
  | kvNext itId poolIdBuf =>
    rcases @IteratorTable.run_lookUp ι store thread state.system state.iter itId with
      lost | ⟨it, here, regular, valid, _⟩
    · simp only [IterationCall.program, IteratorTable.iterOverPool, Program.run_bind, lost,
        Option.bind_some, Program.run_pure, Option.some.injEq, Prod.mk.injEq] at called
      obtain ⟨⟨_, rfl⟩, _⟩ := called
      exact .unchanged fetching rfl rfl
    · obtain ⟨verdict, after, _, moved, _, portions⟩ := @IteratorTable.run_iterOverPool_valid ι
        store thread state.system state.iter itId it regular here valid (fetching itId it here)
        poolIdBuf
      simp only [IterationCall.program, Program.run_bind, moved, Option.bind_some,
        Program.run_pure, Option.some.injEq, Prod.mk.injEq] at called
      obtain ⟨⟨_, rfl⟩, _⟩ := called
      have stays : ∀ other, (Function.update state.iter itId (some after) other).isSome =
          (state.iter other).isSome := by
        intro other
        by_cases same : other = itId
        · rw [same, Function.update_self, here, Option.isSome_some, Option.isSome_some]
        · rw [Function.update_of_ne same]
      exact .kept _ (fetching.update portions) stays rfl
  | kvIterationEnd itId =>
    rcases @IteratorTable.run_lookUp ι store thread state.system state.iter itId with
      lost | ⟨it, here, regular, valid, _⟩
    · have refused : (state.iter.freeIterator itId).run (answerSystem store thread) state.system =
          some ((.error NvmErrorCode.invalidInput.retCode, state.iter), state.system) := by
        simp only [IteratorTable.freeIterator, Program.run_bind, lost, Option.bind_some,
          Program.run_pure]
      simp only [IterationCall.program, Program.run_bind, refused, Option.bind_some,
        Program.run_pure, Option.some.injEq, Prod.mk.injEq] at called
      obtain ⟨⟨_, rfl⟩, _⟩ := called
      refine .lost itId rfl rfl ?_
      intro regular it here valid
      rw [IteratorTable.run_lookUp_valid regular here valid] at lost
      cases lost
    · have emptied := @IteratorTable.run_freeIterator_valid ι store thread state.system state.iter
        itId it regular here valid
      simp only [IterationCall.program, Program.run_bind, emptied, Option.bind_some,
        Program.run_pure, Option.some.injEq, Prod.mk.injEq] at called
      obtain ⟨⟨_, rfl⟩, _⟩ := called
      exact .freed itId rfl rfl
  | kvPoolCreate poolTag =>
    simp only [IterationCall.program, Program.run_bind, Option.bind_eq_some_iff,
      Program.run_pure, Option.some.injEq, Prod.mk.injEq] at called
    obtain ⟨_, _, ⟨_, rfl⟩, _⟩ := called
    exact .unchanged fetching rfl rfl
  | kvPoolDelete poolId =>
    simp only [IterationCall.program, Program.run_bind, Option.bind_eq_some_iff,
      Program.run_pure, Option.some.injEq, Prod.mk.injEq] at called
    obtain ⟨_, _, ⟨_, rfl⟩, _⟩ := called
    exact .unchanged fetching rfl rfl
  | other program =>
    simp only [IterationCall.program, Program.run_bind, Option.bind_eq_some_iff,
      Program.run_pure, Option.some.injEq, Prod.mk.injEq] at called
    obtain ⟨_, _, ⟨_, rfl⟩, _⟩ := called
    exact .unchanged fetching rfl rfl

/-- The live ids are different, and their places are taken. -/
structure LiveSlots (state : IterationState ι) : Prop where
  fetching : state.iter.Fetching
  distinct : state.live.Nodup
  regular : ∀ itId, (state.iter itId).isSome = true → itId ∈ regularIds
  taken : ∀ itId ∈ state.live, (state.iter itId).isSome = true

/-- No iterator is live in a store that is opened. -/
theorem LiveSlots.opened (system : SystemState ι) : LiveSlots (.opened system) where
  fetching := by
    intro itId it here
    cases here
  distinct := List.nodup_nil
  regular := fun _ absent => Bool.noConfusion absent
  taken := fun _ absent => absurd absent List.not_mem_nil

/-- One step: a new id is that of a free place, so it is not live yet. -/
theorem LiveSlots.step (slots : LiveSlots state) (advances : Advances state next call) :
    LiveSlots next := by
  cases advances with
  | kept _ fetching same live =>
    refine ⟨fetching, live ▸ slots.distinct, ?_, ?_⟩
    · intro itId taken
      exact slots.regular itId ((same itId).symm.trans taken)
    · intro itId listed
      exact (same itId).trans (slots.taken itId (live ▸ listed))
  | begun _ itId it regular free portions taken live =>
    have fresh : itId ∉ state.live := by
      intro listed
      have occupied := slots.taken itId listed
      rw [free] at occupied
      exact Bool.noConfusion occupied
    refine ⟨taken ▸ slots.fetching.update portions, ?_, ?_, ?_⟩
    · rw [live]
      exact List.nodup_cons.mpr ⟨fresh, slots.distinct⟩
    · intro other occupied
      by_cases same : other = itId
      · exact same ▸ regular
      · rw [taken, Function.update_of_ne same] at occupied
        exact slots.regular other occupied
    · intro other listed
      rw [taken]
      by_cases same : other = itId
      · rw [same, Function.update_self, Option.isSome_some]
      · rw [live] at listed
        rw [Function.update_of_ne same]
        exact slots.taken other ((List.mem_cons.mp listed).resolve_left same)
  | freed itId emptied live =>
    refine ⟨emptied ▸ slots.fetching.free, live ▸ slots.distinct.erase itId, ?_, ?_⟩
    · intro other occupied
      by_cases same : other = itId
      · rw [emptied, same, Function.update_self] at occupied
        exact Bool.noConfusion occupied
      · rw [emptied, Function.update_of_ne same] at occupied
        exact slots.regular other occupied
    · intro other listed
      rw [live, slots.distinct.mem_erase_iff] at listed
      rw [emptied, Function.update_of_ne listed.1]
      exact slots.taken other listed.2
  | lost itId iter live _ =>
    refine ⟨iter ▸ slots.fetching, live ▸ slots.distinct.erase itId, ?_, ?_⟩
    · intro other occupied
      exact slots.regular other (iter ▸ occupied)
    · intro other listed
      rw [live] at listed
      exact iter ▸ slots.taken other (List.mem_of_mem_erase listed)

/-- Only the places of live ids are taken. -/
def OnlyLive (state : IterationState ι) : Prop :=
  ∀ itId, (state.iter itId).isSome = true → itId ∈ state.live

/-- One step: an iteration that is ended while its pool is in use gives its place back. -/
theorem OnlyLive.step (only : OnlyLive state) (slots : LiveSlots state)
    (ends : EndsInUse state call) (advances : Advances state next call) : OnlyLive next := by
  cases advances with
  | kept _ fetching same live =>
    intro itId taken
    rw [live]
    exact only itId ((same itId).symm.trans taken)
  | begun _ itId it regular free portions taken live =>
    intro other occupied
    rw [live]
    by_cases same : other = itId
    · exact same ▸ List.mem_cons_self
    · rw [taken, Function.update_of_ne same] at occupied
      exact List.mem_cons_of_mem itId (only other occupied)
  | freed itId emptied live =>
    intro other occupied
    by_cases same : other = itId
    · rw [emptied, same, Function.update_self] at occupied
      exact Bool.noConfusion occupied
    · rw [emptied, Function.update_of_ne same] at occupied
      rw [live]
      exact (List.mem_erase_of_ne same).mpr (only other occupied)
  | lost itId iter live unusable =>
    intro other occupied
    rw [iter] at occupied
    rw [live]
    by_cases same : other = itId
    · obtain ⟨it, here⟩ := Option.isSome_iff_exists.mp occupied
      rw [same] at occupied here
      exact absurd (ends itId (only itId occupied) rfl it here)
        (unusable (slots.regular itId occupied) it here)
    · exact (List.mem_erase_of_ne same).mpr (only other occupied)

variable {allowed : IterationState ι → IterationCall → Prop} {system : SystemState ι}

/-- In every run. -/
theorem LiveSlots.reached
    (run : IterationReached store iter thread allowed (.opened system) state) :
    LiveSlots state := by
  induction run with
  | first => exact .opened system
  | step _ _ ran inductionHypothesis =>
    exact inductionHypothesis.step (advances_of_run inductionHypothesis.fetching ran)

/-- In every run whose iterations are ended while their pools are in use. -/
theorem OnlyLive.reached
    (run : IterationReached store iter thread allowed (.opened system) state)
    (careful : ∀ reached call, allowed reached call → EndsInUse reached call) :
    OnlyLive state := by
  induction run with
  | first => exact fun _ absent => Bool.noConfusion absent
  | step before permitted ran inductionHypothesis =>
    have slots := LiveSlots.reached before
    exact inductionHypothesis.step slots (careful _ _ permitted)
      (advances_of_run slots.fetching ran)

section Again

variable {poolId : UInt32}

/-- An iteration over a pool that is not empty comes to a range. Induction is on the ranges:
none before the range of the pool ends the iteration. -/
theorem nextOfPool_reaches {media : Media} {ranges : List NvmBlockRange}
    (ordered : ranges.Pairwise fun first second => first.startLba < second.startLba)
    {range : NvmBlockRange} (listed : range ∈ ranges)
    (belongs : ofPool store media poolId range = true)
    (earlier : ∀ other ∈ ranges, endsIteration store media poolId other = true →
      range.startLba < other.startLba) :
    ∃ found, nextOfPool store media poolId ranges = .ok found := by
  induction ranges with
  | nil => exact absurd listed List.not_mem_nil
  | cons first rest inductionHypothesis =>
    obtain ⟨before, orderedRest⟩ := List.pairwise_cons.mp ordered
    have continues : endsIteration store media poolId first = false := by
      by_contra ends
      rw [Bool.not_eq_false] at ends
      have behind := earlier first List.mem_cons_self ends
      rcases List.mem_cons.mp listed with rfl | later
      · exact Nat.lt_irrefl _ behind
      · exact Nat.lt_asymm behind (before range later)
    rw [nextOfPool, continues, if_neg Bool.false_ne_true]
    cases stops : ofPool store media poolId first with
    | true => exact ⟨_, if_pos rfl⟩
    | false =>
      rw [if_neg Bool.false_ne_true]
      rcases List.mem_cons.mp listed with rfl | later
      · rw [belongs] at stops
        exact Bool.noConfusion stops
      · exact inductionHypothesis orderedRest later
          fun other further => earlier other (List.mem_cons_of_mem _ further)

/-- In a pool that is not empty the next pair is found. -/
theorem NonEmptyPool.nextOfPool {system : SystemState ι}
    (nonEmpty : NonEmptyPool store system poolId) :
    ∃ found, nextOfPool store system.store.media poolId
      (poolRanges store system.store.media poolId) = .ok found := by
  obtain ⟨range, mapped, belongs, earlier⟩ := nonEmpty.reached
  have shares : sharesBits store poolId range = true := by
    rw [ofPool, Bool.and_eq_true] at belongs
    exact belongs.1
  exact nextOfPool_reaches poolRanges_ordered ((mem_poolRanges shares).mpr mapped) belongs
    fun other listed ends => earlier other ((mem_poolRanges_ends ends).mp listed) ends

/-- Fewer live ids than places leave a place free. -/
theorem exists_free_place (only : OnlyLive state)
    (fewer : state.live.length < nvmKvMaxIterators.toNat) :
    ∃ itId, regularIds.find? (fun itId => (state.iter itId).isNone) = some itId := by
  rw [← Option.isSome_iff_exists, List.find?_isSome]
  by_contra full
  simp only [not_exists, not_and] at full
  have listed : regularIds ⊆ state.live := by
    intro itId regular
    refine only itId ?_
    rw [← Option.not_isNone, Bool.not_eq_true']
    exact Bool.eq_false_iff.mpr (full itId regular)
  have longer := (regularIds_nodup.subperm listed).length_le
  rw [regularIds_length] at longer
  omega

/-- Where a place is free, an iteration over a pool that is not empty begins. -/
theorem run_begins (only : OnlyLive state)
    (fewer : state.live.length < nvmKvMaxIterators.toNat)
    (begins : BeginsOnNonEmpty store state.system call) :
    ∃ itId next, call.run store iter thread state = some (.ok itId, next) ∧
      next.system = state.system ∧ next.live = itId :: state.live := by
  obtain ⟨itId, found⟩ := exists_free_place only fewer
  cases begins with
  | begin poolId memory poolIdBuf nonEmpty =>
    have single := PoolIterator.single_of_used nonEmpty.used
    obtain ⟨verdict, after, looped, _, _, ran⟩ := @IteratorTable.run_kvBegin_found ι store thread
      state.system state.iter itId iter poolId (some poolIdBuf) memory (Or.inl nonEmpty.used) found
    obtain ⟨fresh, begun⟩ : ∃ fresh, fresh = IteratorTable.freshIter store iter poolId memory :=
      ⟨_, rfl⟩
    rw [← begun] at looped
    have iterates : fresh.Over store poolId := begun ▸ ⟨rfl, rfl, iter.positive⟩
    have ahead : fresh.rest state.system.store.media =
        poolRanges store state.system.store.media poolId := by
      rw [begun, PoolIterator.rest, poolRanges]
      dsimp only [IteratorTable.freshIter, PoolIterator.allocIter, KvBatchIterator.initIter]
      rw [Nat.zero_sub, List.range'_zero, List.map_nil, List.nil_append]
    obtain ⟨reached, comes⟩ := nonEmpty.nextOfPool
    have moves := @PoolIterator.movesOn_iterOverPoolLoop ι store thread state.system poolId
      poolIdBuf nonEmpty.used single (fresh.roundsLeft + 1) fresh iterates
      (Nat.lt_succ_of_le fresh.rest_length_le)
    rw [ahead] at moves
    rcases moves with ⟨code, _, ended, _⟩ | ⟨_, _, _, _, moved, _⟩
    · rw [comes] at ended
      cases ended
    · rw [looped] at moved
      cases moved
      refine ⟨itId, ⟨state.system, Function.update state.iter itId (some after),
        itId :: state.live⟩, ?_, rfl, rfl⟩
      rw [IterationCall.run, IterationCall.program, ran]
      rfl

/-- Induction is on the calls: each takes a place that is free. -/
theorem runAll_begins (slots : LiveSlots state) (only : OnlyLive state) (calls : List IterationCall)
    (fewer : state.live.length + calls.length ≤ nvmKvMaxIterators.toNat)
    (begins : ∀ call ∈ calls, BeginsOnNonEmpty store state.system call) :
    ∃ (ids : List Int) (after : IterationState ι),
      IterationCall.runAll store iter thread calls state = some (ids.map .ok, after) ∧
      after.live = ids.reverse ++ state.live ∧ LiveSlots after := by
  induction calls generalizing state with
  | nil => exact ⟨[], state, rfl, rfl, slots⟩
  | cons call calls inductionHypothesis =>
    rw [List.length_cons] at fewer
    obtain ⟨itId, next, ran, system, live⟩ := @run_begins ι store iter thread state call only
      (by omega) (begins call List.mem_cons_self)
    have advances := advances_of_run slots.fetching ran
    have ends : EndsInUse state call := by
      rintro other _ rfl
      cases begins _ List.mem_cons_self
    have shorter : next.live.length + calls.length ≤ nvmKvMaxIterators.toNat := by
      rw [live, List.length_cons]
      omega
    obtain ⟨ids, after, others, listed, kept⟩ := inductionHypothesis (slots.step advances)
      (only.step slots ends advances) shorter
      fun other member => system ▸ begins other (List.mem_cons_of_mem call member)
    refine ⟨itId :: ids, after, ?_, ?_, kept⟩
    · simp only [IterationCall.runAll, ran, others, Option.bind_eq_bind, Option.bind_some,
        Option.pure_def, List.map_cons]
    · rw [listed, live, List.reverse_cons, List.append_assoc, List.singleton_append]

/-- Where the places taken are those of live ids, none is lost. -/
theorem OnlyLive.keepsSlots (only : OnlyLive state) (slots : LiveSlots state) :
    KeepsSlots store iter thread state where
  distinct := slots.distinct
  occupied := fun itId => ⟨only itId, slots.taken itId⟩
  again := by
    intro none calls count begins
    obtain ⟨ids, after, ran, listed, kept⟩ := @runAll_begins ι store iter thread state slots only
      calls (by rw [none, count, List.length_nil, Nat.zero_add]) begins
    have distinct := kept.distinct
    rw [listed, none, List.append_nil, List.nodup_reverse] at distinct
    exact ⟨ids, after, ran, distinct⟩

end Again

section DeletedPool

/-- A pool besides the default one. -/
def usedPool : NvmKvPoolMgr := (NvmKvPoolMgr.created fun _ => .zero).allocated none 1

/-- A store with that pool and a pair of it. -/
def usedPoolPair : SystemState Unit :=
  (onePair 1 1966219265).managed usedPool (onePair 1 1966219265).poolMedia

/-- The pool of the example has a pair. -/
theorem usedPoolPair_nonEmpty : NonEmptyPool NvmKvStore.terabyteStore usedPoolPair 1 := by
  have inside : NvmKvStore.terabyteStore.usrData.Covers 1966219265 := by
    unfold NvmBlockRange.Covers
    decide +kernel
  have ranges : usedPoolPair.store.media.logicalRanges NvmKvStore.terabyteStore.usrData =
      [⟨1966219265, 1⟩] := onePair_ranges inside
  have shares : sharesBits NvmKvStore.terabyteStore 1 ⟨1966219265, 1⟩ = true := by decide +kernel
  refine ⟨by decide, ⟨1966219265, 1⟩, ?_, ?_, ?_⟩
  · rw [ranges]
    exact List.mem_singleton_self _
  · rw [ofPool, terabyte_trusts, shares, Bool.not_false, Bool.true_or, Bool.and_true]
  · intro other _ ends
    rw [endsIteration, terabyte_trusts, Bool.and_false, Bool.false_and] at ends
    exact Bool.noConfusion ends

/-- An iteration over the pool begins: its iterator is valid and takes a place. -/
theorem usedPoolPair_begins : ∃ (itId : Int) (it : PoolIterator) (table : IteratorTable),
    (IterationCall.kvBegin 1 (some iteratorMemory) (some fun _ => 0)).run
        NvmKvStore.terabyteStore portionOf32 () (.opened usedPoolPair) =
          some (.ok itId, ⟨usedPoolPair, table, [itId]⟩) ∧
      itId ∈ regularIds ∧ table itId = some it ∧ it.poolId = 1 := by
  obtain ⟨itId, begun, ran, _, _⟩ := @run_begins Unit NvmKvStore.terabyteStore portionOf32 ()
    (.opened usedPoolPair) _ (fun _ absent => Bool.noConfusion absent) (by decide)
    (BeginsOnNonEmpty.begin 1 iteratorMemory (fun _ => 0) usedPoolPair_nonEmpty)
  obtain ⟨result, table, called, begins⟩ := @IteratorTable.run_kvBegin Unit
    NvmKvStore.terabyteStore portionOf32 1 (some fun _ => 0) () usedPoolPair (fun _ => none)
    (some iteratorMemory)
  have opened := ran
  rw [IterationCall.run, IterationCall.program, IterationState.opened, called] at opened
  cases opened
  cases begins with
  | begun _ it regular free pool portions =>
    have here : Function.update (fun _ => none) itId (some it) itId = some it := by
      rw [Function.update_self]
    exact ⟨itId, it, _, ran, regular, here, pool⟩

/-- The store when the pool was deleted. -/
def usedPoolDeleted : SystemState Unit :=
  let (_, mgr, media) :=
    usedPool.deletePoolLocked NvmKvStore.terabyteStore 1 true usedPoolPair.poolMedia
  usedPoolPair.managed mgr media

/-- Its deletion is accepted. -/
theorem run_deletes_usedPool :
    (NvmKvStoreMgr.kvPoolDelete NvmKvStore.terabyteStore 1).run
      (answerSystem NvmKvStore.terabyteStore ()) usedPoolPair = some (.ok (), usedPoolDeleted) :=
  rfl

/-- The pool is not in use after it. -/
theorem usedPoolDeleted_status :
    poolStatus usedPoolDeleted.store.inUse usedPoolDeleted.store.deleted 1 ≠ .poolInUse := by
  decide

/-- An iteration over the pool, ended when the pool was deleted, keeps its place. -/
theorem usedPoolPair_lost : ∃ (itId : Int) (state : IterationState Unit),
    IterationReached NvmKvStore.terabyteStore portionOf32 () (fun _ _ => True)
        (.opened usedPoolPair) state ∧
      state.live = [] ∧ (state.iter itId).isSome = true := by
  obtain ⟨itId, it, table, ran, _, here, pool⟩ := usedPoolPair_begins
  have began : IterationReached NvmKvStore.terabyteStore portionOf32 () (fun _ _ => True)
      (.opened usedPoolPair) ⟨usedPoolPair, table, [itId]⟩ :=
      IterationReached.first.step trivial ran
  have deletes : (IterationCall.kvPoolDelete 1).run NvmKvStore.terabyteStore portionOf32 ()
      ⟨usedPoolPair, table, [itId]⟩ = some (.ok 0, ⟨usedPoolDeleted, table, [itId]⟩) := by
    rw [IterationCall.run, IterationCall.program, Program.run_bind, run_deletes_usedPool]
    rfl
  have unusable : (table.lookUp itId).run (answerSystem NvmKvStore.terabyteStore ())
      usedPoolDeleted = some (none, usedPoolDeleted) := by
    rcases @IteratorTable.run_lookUp Unit NvmKvStore.terabyteStore () usedPoolDeleted table itId
      with lost | ⟨found, listed, _, valid, _⟩
    · exact lost
    · rw [here, Option.some.injEq] at listed
      rw [PoolIterator.Valid, ← listed, pool] at valid
      exact absurd (valid.resolve_left usedPoolDeleted_status) (by decide)
  have ends : (IterationCall.kvIterationEnd itId).run NvmKvStore.terabyteStore portionOf32 ()
      ⟨usedPoolDeleted, table, [itId]⟩ =
        some (.error NvmErrorCode.invalidInput.retCode, ⟨usedPoolDeleted, table, []⟩) := by
    simp only [IterationCall.run, IterationCall.program, IteratorTable.freeIterator,
      Program.run_bind, unusable, Option.bind_some, Program.run_pure, Option.map_some,
      IterationCall.live, List.erase_cons_head]
    rfl
  refine ⟨itId, ⟨usedPoolDeleted, table, []⟩, ?_, rfl, ?_⟩
  · exact (began.step trivial deletes).step trivial ends
  · exact congrArg Option.isSome here

end DeletedPool

/-- In every run the live iterators have different ids. Where each iteration is ended while its
pool is in use, no place is lost either. -/
theorem iterator_slots_kept (store : NvmKvStore) (iter : LogicalIterRanges) (thread : ι)
    (allowed : IterationState ι → IterationCall → Prop) (system : SystemState ι)
    (state : IterationState ι)
    (run : IterationReached store iter thread allowed (.opened system) state) :
    state.live.Nodup ∧
      ((∀ reached call, allowed reached call → EndsInUse reached call) →
        KeepsSlots store iter thread state) :=
  ⟨(LiveSlots.reached run).distinct,
    fun careful => (OnlyLive.reached run careful).keepsSlots (LiveSlots.reached run)⟩

/-- An iteration is begun and ended while its pool is in use, which frees its place, and another
one is begun after it: no place is lost. -/
theorem iterator_slots_kept_ended : ∃ itId begun ended again next,
    (IterationCall.kvBegin 1 (some iteratorMemory) (some fun _ => 0)).run
        NvmKvStore.terabyteStore portionOf32 () (.opened usedPoolPair) = some (.ok itId, begun) ∧
      begun.live = [itId] ∧ (begun.iter itId).isSome = true ∧
      (IterationCall.kvIterationEnd itId).run NvmKvStore.terabyteStore portionOf32 () begun =
        some (.ok 0, ended) ∧
      ended.live = [] ∧ (ended.iter itId).isNone = true ∧
      (IterationCall.kvBegin 1 (some iteratorMemory) (some fun _ => 0)).run
        NvmKvStore.terabyteStore portionOf32 () ended = some (.ok again, next) ∧
      next.live = [again] ∧ KeepsSlots NvmKvStore.terabyteStore portionOf32 () next := by
  obtain ⟨itId, it, table, ran, regular, here, pool⟩ := usedPoolPair_begins
  have valid : it.Valid usedPoolPair := by
    rw [PoolIterator.Valid, pool]
    exact Or.inl usedPoolPair_nonEmpty.used
  have began : IterationReached NvmKvStore.terabyteStore portionOf32 () EndsInUse
      (.opened usedPoolPair) ⟨usedPoolPair, table, [itId]⟩ :=
    .step .first (fun _ absent => absurd absent List.not_mem_nil) ran
  have ends : (IterationCall.kvIterationEnd itId).run NvmKvStore.terabyteStore portionOf32 ()
      ⟨usedPoolPair, table, [itId]⟩ =
        some (.ok 0, ⟨usedPoolPair, Function.update table itId none, []⟩) := by
    simp only [IterationCall.run, IterationCall.program, Program.run_bind,
      IteratorTable.run_freeIterator_valid regular here valid, Option.bind_some, Program.run_pure,
      Option.map_some, IterationCall.live, List.erase_cons_head]
    rfl
  have ended : IterationReached NvmKvStore.terabyteStore portionOf32 () EndsInUse
      (.opened usedPoolPair) ⟨usedPoolPair, Function.update table itId none, []⟩ := by
    refine .step began ?_ ends
    intro other _ same found listed
    cases same
    obtain rfl : it = found := Option.some.inj (here.symm.trans listed)
    exact valid
  obtain ⟨again, next, restarted, _, live⟩ := @run_begins Unit NvmKvStore.terabyteStore portionOf32
    () ⟨usedPoolPair, Function.update table itId none, []⟩ _
    (OnlyLive.reached ended fun _ _ inUse => inUse) (Nat.zero_lt_succ _)
    (BeginsOnNonEmpty.begin 1 iteratorMemory (fun _ => 0) usedPoolPair_nonEmpty)
  have reached : IterationReached NvmKvStore.terabyteStore portionOf32 () EndsInUse
      (.opened usedPoolPair) next :=
    .step ended (fun _ absent => absurd absent List.not_mem_nil) restarted
  refine ⟨itId, _, _, again, next, ran, rfl, congrArg Option.isSome here, ends, rfl, ?_, restarted,
    live, (iterator_slots_kept NvmKvStore.terabyteStore portionOf32 () EndsInUse usedPoolPair next
      reached).2 fun _ _ inUse => inUse⟩
  exact congrArg Option.isNone (Function.update_self itId none table)

/-- The pool of an iteration is deleted before the iteration is ended: the place stays taken. -/
theorem deleted_pool_keeps_slot :
    ¬∀ (store : NvmKvStore) (iter : LogicalIterRanges) (system : SystemState Unit)
      (state : IterationState Unit),
      IterationReached store iter () (fun _ _ => True) (.opened system) state →
      KeepsSlots store iter () state := by
  intro keeps
  obtain ⟨itId, state, run, none, taken⟩ := usedPoolPair_lost
  have listed := ((keeps NvmKvStore.terabyteStore portionOf32 usedPoolPair state run).occupied
    itId).mp taken
  rw [none] at listed
  exact absurd listed List.not_mem_nil

end Nvmkv
