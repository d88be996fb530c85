import Nvmkv.PutLocks

/-!
# The rounds of a batch put

One round of the loop over the pairs of a batch, run by one caller on a device that may
fail. A round that validates its pair asks the cache, allocates, finds the address and
prepares the vectors. Only the cache's part and the search work on the safe list. The rest
either ends the loop or adds the address to the list of those chosen.

The search of a batch may start with the flag set for addresses of earlier pairs. It then
removes the first address from the safe list when it passes it by, and goes on as one that
holds nothing (`searchWith_passes`).
-/

namespace Nvmkv

variable {ι : Type} {store : NvmKvStore} {thread : ι} {outcome : Nat → Bool}

section Search

variable {clock operations lba : Nat} {media : Media} {poolId : UInt32} {pair : NvmKvIovec}
  {insertLba : Bool} {rest : List Nat}

/-- A search passes an address by: the window is mapped, and the header read there is not
the key's. -/
def PassesBy (store : NvmKvStore) (outcome : Nat → Bool) (media : Media) (poolId : UInt32)
    (key : List UInt8) (operations lba : Nat) : Prop :=
  outcome operations = true ∧ windowFree store media lba = false ∧
    outcome (operations + 1) = true ∧ holds store media poolId key lba = false

/-- A search that passes an address by goes on behind it, two operations later, and takes the next
address itself. -/
theorem searchWith_passes (passes : PassesBy store outcome media poolId pair.key operations lba) :
    searchWith store outcome clock media poolId pair insertLba operations (lba :: rest) =
      { searchWith store outcome clock media poolId pair false (operations + 2) rest with
        dropped := if insertLba then some lba else none } := by
  obtain ⟨works, mapped, reads, other⟩ := passes
  simp only [searchWith, works, mapped, reads, other, Bool.true_eq_false, Bool.false_eq_true,
    if_false]

/-- How a search ends at an address: with an error and nothing inserted, or with success. It
then inserts the address unless a pair of the key is there and the caller was believed to
hold the address. -/
structure SearchEnd.StopsAt (store : NvmKvStore) (media : Media) (poolId : UInt32)
    (key : List UInt8) (insertLba : Bool) (lba : Nat) (ends : SearchEnd) : Prop where
  dropped : ends.dropped = none
  address : ends.keyHashVal = lba
  code : (∃ code, ends.retCode = .error code) ∧ ends.insertLba = insertLba ∧ ends.taken = none ∨
    ends.retCode = .ok () ∧ ends.insertLba = true ∧
      (windowFree store media lba = true ∧ ends.taken = some lba ∨
        windowFree store media lba = false ∧ holds store media poolId key lba = true ∧
          ends.taken = if insertLba then none else some lba)

/-- A search that does not pass an address by ends there. -/
theorem searchWith_stays (stays : ¬PassesBy store outcome media poolId pair.key operations lba) :
    (searchWith store outcome clock media poolId pair insertLba operations (lba :: rest)).StopsAt
      store media poolId pair.key insertLba lba := by
  cases works : outcome operations with
  | false =>
    simp only [searchWith, works, if_true]
    exact ⟨rfl, rfl, Or.inl ⟨⟨_, rfl⟩, rfl, rfl⟩⟩
  | true =>
    cases free : windowFree store media lba with
    | true =>
      simp only [searchWith, works, free, Bool.true_eq_false, if_true, if_false]
      exact ⟨rfl, rfl, Or.inr ⟨rfl, rfl, Or.inl ⟨free, rfl⟩⟩⟩
    | false =>
      cases reads : outcome (operations + 1) with
      | false =>
        simp only [searchWith, works, free, reads, Bool.true_eq_false, Bool.false_eq_true, if_true,
          if_false]
        exact ⟨rfl, rfl, Or.inl ⟨⟨_, rfl⟩, rfl, rfl⟩⟩
      | true =>
        cases held : holds store media poolId pair.key lba with
        | false => exact absurd ⟨works, free, reads, held⟩ stays
        | true =>
          simp only [searchWith, works, free, reads, held, Bool.true_eq_false, Bool.false_eq_true,
            if_true, if_false]
          by_cases expired : pairExpired store clock (storedHeader store media lba) = true
          · rw [if_pos expired]
            exact ⟨rfl, rfl, Or.inr ⟨rfl, rfl, Or.inr ⟨free, held, rfl⟩⟩⟩
          · rw [if_neg expired]
            by_cases replace : pair.replace = true
            · rw [if_pos replace]
              exact ⟨rfl, rfl, Or.inr ⟨rfl, rfl, Or.inr ⟨free, held, rfl⟩⟩⟩
            · rw [if_neg replace]
              exact ⟨rfl, rfl, Or.inl ⟨⟨_, rfl⟩, rfl, rfl⟩⟩

end Search

section Rounds

variable {poolId : UInt32} {pair : NvmKvIovec}

/-- The part of a round behind the question to the cache. -/
def batchPlace (store : NvmKvStore) (poolId : UInt32) (pair : NvmKvIovec) (buf : PoolBuf)
    (state : BatchState) (cached : BatchCached) : StoreM (Except NvmErrorCode Unit × BatchState) :=
  let state := { state with insertLba := cached.insertLba }
  match kvAllocForWrite store.capabilities pair.key.length pair.value pair.valueLen buf with
  | .error code => pure (.error code, state)
  | .ok (layout, buf) =>
      let state := { state with finalIovCount := state.finalIovCount + layout.iovCount }
      if store.capabilities.nvmMaxNumIovs < state.finalIovCount then
        pure (.error .io, state)
      else do
        let placed ← batchLba store poolId pair cached buf state.lbaList
        let state := { state with insertLba := placed.insertLba }
        match placed.retCode with
        | .error code => pure (.error code, state)
        | .ok () => batchPrepare store poolId pair layout placed cached.context state

/-- A pair of a batch is validated, looked up in the cache, and placed. -/
theorem batchPair_eq (buf : PoolBuf) (state : BatchState) :
    batchPair store poolId pair buf state =
      if !kvValidateKey pair.key || !kvValidateValue store false pair.valueLen then
        pure (.error .invalidInput, state)
      else (do
        match ← batchCached store poolId pair state with
        | .error code => pure (.error code, state)
        | .ok cached => batchPlace store poolId pair buf state cached) := rfl

/-- A pair of a batch that is accepted before the cache is asked. -/
def pairAccepted (store : NvmKvStore) (pair : NvmKvIovec) : Bool :=
  kvValidateKey pair.key && kvValidateValue store false pair.valueLen

/-- A pair that is not accepted ends the batch before anything is asked. -/
theorem run_batchPair_rejected {buf : PoolBuf} {state : BatchState} {run : DeviceRun ι}
    (rejected : pairAccepted store pair = false) :
    (batchPair store poolId pair buf state).run (answerWith store thread outcome) run =
      some ((.error .invalidInput, state), run) := by
  rw [batchPair_eq, if_pos]
  · rfl
  · rwa [pairAccepted, ← Bool.not_eq_true', Bool.not_and] at rejected

/-- What the cache says about an accepted pair: that it may not be put, or where it is. An
address that no earlier pair has is taken. -/
theorem run_batchPair_accepted {buf : PoolBuf} {state : BatchState} {run : DeviceRun ι}
    (accepted : pairAccepted store pair = true) :
    (batchPair store poolId pair buf state).run (answerWith store thread outcome) run =
      let answered := cacheAnswer store run.store poolId pair.key
      let place (existsInCache insertLba : Bool) :=
        batchPlace store poolId pair buf state ⟨existsInCache, answered.2, insertLba⟩
      if cacheRefuses store run.store poolId pair then
        some ((.error .objectExists, state), run)
      else if answered.1 then
        match state.lbaList.lookup answered.2.contextEntry.lba with
        | none => (run.take thread (some answered.2.contextEntry.lba)).bind
            ((place true true).run (answerWith store thread outcome))
        | some chosenKey => (place (chosenKey = pair.key) state.insertLba).run
            (answerWith store thread outcome) run
      else
        (place false state.insertLba).run (answerWith store thread outcome) run := by
  simp only [pairAccepted, Bool.and_eq_true] at accepted
  rw [batchPair_eq, if_neg (by simp [accepted.1, accepted.2])]
  unfold batchCached
  by_cases cached : 0 < store.cacheSize
  · obtain ⟨⟨found, context⟩, answered⟩ :
        ∃ reply, cacheAnswer store run.store poolId pair.key = reply := ⟨_, rfl⟩
    have refuses : cacheRefuses store run.store poolId pair =
        (found && !pair.replace && !context.expired) := by
      simp only [cacheRefuses, answered]
    simp only [cached, if_true, Program.run_bind, run_askCacheGet_with cached, Option.bind_some,
      answered, refuses]
    cases found with
    | false =>
      simp only [Bool.false_eq_true, if_false, Bool.false_and, Program.run_pure, Option.bind_some]
    | true =>
      have entryState : context.contextState = .cacheEntryFound := by
        rw [cacheAnswer, if_pos cached] at answered
        exact (kvCacheGet_found answered).1
      simp only [if_true, Bool.true_and, entryState]
      split_ifs
      · rfl
      · cases state.lbaList.lookup context.contextEntry.lba with
        | none =>
          simp only [Program.run_bind, run_insertEntry_with]
          cases run.take thread (some context.contextEntry.lba) <;> rfl
        | some chosenKey => rfl
  · have unasked : cacheAnswer store run.store poolId pair.key = (false, .zero) := if_neg cached
    have allows : cacheRefuses store run.store poolId pair = false := by
      simp only [cacheRefuses, unasked, Bool.false_and]
    simp only [cached, if_false, unasked, allows, Bool.false_eq_true, Program.run_bind,
      Program.run_pure, Option.bind_some]

/-- There is memory for a pair, and the vectors of the batch are not too many with it. -/
def BatchFits (store : NvmKvStore) (pair : NvmKvIovec) (buf : PoolBuf) (state : BatchState) :
    Prop :=
  ∃ layout given, kvAllocForWrite store.capabilities pair.key.length pair.value pair.valueLen buf =
      .ok (layout, given) ∧
    state.finalIovCount + layout.iovCount ≤ store.capabilities.nvmMaxNumIovs

/-- A pair that does not fit ends the loop, with the flag as the cache left it. -/
theorem run_batchPlace_unfit {buf : PoolBuf} {state : BatchState} {cached : BatchCached}
    {run : DeviceRun ι} (unfit : ¬BatchFits store pair buf state) :
    ∃ code ended, (batchPlace store poolId pair buf state cached).run
        (answerWith store thread outcome) run = some ((.error code, ended), run) ∧
      ended.insertLba = cached.insertLba ∧ ended.lbaList = state.lbaList := by
  unfold batchPlace
  cases allocated : kvAllocForWrite store.capabilities pair.key.length pair.value pair.valueLen
      buf with
  | error code => exact ⟨code, _, rfl, rfl, rfl⟩
  | ok allocation =>
    obtain ⟨layout, given⟩ := allocation
    dsimp only
    have many : store.capabilities.nvmMaxNumIovs < state.finalIovCount + layout.iovCount := by
      by_contra few
      exact unfit ⟨layout, given, allocated, Nat.not_lt.mp few⟩
    rw [if_pos many]
    exact ⟨_, _, rfl, rfl, rfl⟩

/-- Completing the header reads the time only for a pair that expires. -/
theorem run_kvProcessForWrite_with (layout : WriteLayout) (given : Region) (lba : Nat) :
    (kvProcessForWrite store.capabilities poolId pair layout given (putExpiry store pair) lba).run
        (answerWith store thread outcome) run =
      some ((putIovec store poolId pair layout given run.store.clock lba,
        absoluteExpiry (putExpiry store pair) run.store.clock), run) := by
  unfold kvProcessForWrite putIovec putHeader
  by_cases never : putExpiry store pair = 0
  · have zero : ∀ time, absoluteExpiry 0 time = 0 := fun _ => if_pos rfl
    simp only [never, if_true, Program.run_bind, Program.run_pure, Option.bind_some, zero]
  · simp only [never, if_false, Program.run_bind, run_currentTime_with, Option.bind_some,
      Program.run_pure]

/-- Preparing the vectors of a pair leaves the run as it is and adds the address to the
chosen ones. -/
theorem run_batchPrepare_with {layout : WriteLayout} {placed : GenLba}
    {context : NvmKvCacheContext} {state : BatchState} {run : DeviceRun ι} :
    ∃ result ended, (batchPrepare store poolId pair layout placed context state).run
        (answerWith store thread outcome) run = some ((result, ended), run) ∧
      ended.insertLba = state.insertLba ∧
      ended.lbaList = state.lbaList.insert placed.keyHashVal pair.key ∧
      (result = .ok () → ended.puts.map NvmKvCachePut.lba =
        state.puts.map NvmKvCachePut.lba ++ [placed.keyHashVal]) := by
  unfold batchPrepare
  dsimp only
  cases kvProcessForTrim store.capabilities pair.valueLen placed.trimLen placed.keyHashVal with
  | error code =>
    refine ⟨_, _, rfl, rfl, rfl, ?_⟩
    intro wrong
    cases wrong
  | ok trims =>
    dsimp only
    split_ifs with many
    · refine ⟨_, _, rfl, rfl, rfl, ?_⟩
      intro wrong
      cases wrong
    · rw [Program.run_bind, run_kvProcessForWrite_with, Option.bind_some]
      refine ⟨_, _, rfl, rfl, rfl, fun _ => ?_⟩
      rw [List.map_append, List.map_singleton]

/-- How a round ends that has found an address or has not: the address is among the chosen
ones, or the list is as it was. -/
structure RoundPlaced (pair : NvmKvIovec) (state : BatchState) (placed : GenLba)
    (ended : Except NvmErrorCode Unit × BatchState) : Prop where
  flag : ended.2.insertLba = placed.insertLba
  failed : ∀ code, placed.retCode = .error code →
    ended.1 = .error code ∧ ended.2.lbaList = state.lbaList
  placed : placed.retCode = .ok () →
    ended.2.lbaList = state.lbaList.insert placed.keyHashVal pair.key ∧
      (ended.1 = .ok () → ended.2.puts.map NvmKvCachePut.lba =
        state.puts.map NvmKvCachePut.lba ++ [placed.keyHashVal])

/-- A round whose pair fits ends in the run in which its address was found. -/
theorem run_batchPlace_fit {buf : PoolBuf} {state : BatchState} {cached : BatchCached}
    {run : DeviceRun ι} (fits : BatchFits store pair buf state) :
    ∃ given : Region,
      ((batchLba store poolId pair cached given state.lbaList).run (answerWith store thread outcome)
          run = none →
        (batchPlace store poolId pair buf state cached).run (answerWith store thread outcome) run =
          none) ∧
      ∀ placed found, (batchLba store poolId pair cached given state.lbaList).run
          (answerWith store thread outcome) run = some (placed, found) →
        ∃ ended, (batchPlace store poolId pair buf state cached).run
            (answerWith store thread outcome) run = some (ended, found) ∧
          RoundPlaced pair state placed ended := by
  obtain ⟨layout, given, allocated, few⟩ := fits
  refine ⟨given, ?_, ?_⟩
  · intro waits
    simp only [batchPlace, allocated, if_neg (Nat.not_lt.mpr few), Program.run_bind, waits,
      Option.bind_none]
  · intro placed found search
    simp only [batchPlace, allocated, if_neg (Nat.not_lt.mpr few), Program.run_bind, search,
      Option.bind_some]
    cases code : placed.retCode with
    | error code =>
      refine ⟨_, rfl, rfl, ?_, ?_⟩
      · intro other same
        rw [code] at same
        cases same
        exact ⟨rfl, rfl⟩
      · intro wrong
        rw [code] at wrong
        cases wrong
    | ok done =>
      obtain ⟨result, ended, prepares, flag, list, puts⟩ :=
        @run_batchPrepare_with _ store thread outcome poolId pair layout placed cached.context
          { state with
            insertLba := placed.insertLba
            finalIovCount := state.finalIovCount + layout.iovCount } found
      refine ⟨_, prepares, flag, ?_, fun _ => ⟨list, puts⟩⟩
      intro other wrong
      rw [code] at wrong
      cases wrong

end Rounds

section Batches

variable {poolId : UInt32} {kvIov : List NvmKvIovec} {allocation : BatchAllocation}

/-- Removing addresses from the safe list leaves the other ones on it. Induction follows the
addresses. -/
theorem run_deleteLbas_with (lbas : List Nat) (run : DeviceRun ι) :
    ∃ released, (deleteLbas lbas).run (answerWith store thread outcome) run =
        some ((), released) ∧
      ∀ lba, released.store.safeLbaList lba =
        if lba ∈ lbas then none else run.store.safeLbaList lba := by
  induction lbas generalizing run with
  | nil => exact ⟨run, rfl, fun _ => rfl⟩
  | cons first rest inductionHypothesis =>
    obtain ⟨released, ran, list⟩ := inductionHypothesis (run.release first)
    refine ⟨released, ran, fun lba => ?_⟩
    rw [list]
    by_cases later : lba ∈ rest
    · rw [if_pos later, if_pos (List.mem_cons_of_mem _ later)]
    · change (if lba ∈ rest then none else Function.update run.store.safeLbaList first none lba) = _
      rw [if_neg later, Function.update_apply]
      simp only [List.mem_cons, later, or_false]

/-- The end of a batch put removes the chosen addresses from the safe list, when the flag is
set. -/
theorem run_batchRelease_list (state : BatchState) (run : DeviceRun ι) :
    ∃ released, (batchRelease state).run (answerWith store thread outcome) run =
        some ((), released) ∧
      ∀ lba, released.store.safeLbaList lba =
        if state.insertLba = true ∧ lba ∈ state.lbaList.chosen then none
        else run.store.safeLbaList lba := by
  unfold batchRelease
  cases state.insertLba with
  | false => exact ⟨run, rfl, fun lba => (if_neg fun set => Bool.false_ne_true set.1).symm⟩
  | true =>
    rw [if_pos rfl]
    obtain ⟨released, ran, list⟩ :=
      @run_deleteLbas_with _ store thread outcome state.lbaList.lbas run
    refine ⟨released, ran, fun lba => ?_⟩
    rw [list]
    simp only [LbaList.lbas_perm.mem_iff, true_and]

/-- The pairs to which the loop of a batch put comes from some pairs on: each with its buffer,
and with the variables and the run in which its round begins. -/
inductive BatchReaches (store : NvmKvStore) (thread : ι) (outcome : Nat → Bool) (poolId : UInt32)
    (buf : Nat → PoolBuf) : Nat → List NvmKvIovec → BatchState → DeviceRun ι →
      NvmKvIovec → PoolBuf → BatchState → DeviceRun ι → Prop
  | here {i : Nat} {pair : NvmKvIovec} {rest : List NvmKvIovec} {state : BatchState}
      {run : DeviceRun ι} :
      BatchReaches store thread outcome poolId buf i (pair :: rest) state run pair (buf i) state run
  | later {i : Nat} {pair other : NvmKvIovec} {rest : List NvmKvIovec} {given : PoolBuf}
      {state between begun : BatchState} {run reached before : DeviceRun ι}
      (ran : (batchPair store poolId pair (buf i) state).run (answerWith store thread outcome) run =
        some ((.ok (), between), reached))
      (further : BatchReaches store thread outcome poolId buf (i + 1) rest between reached other
        given begun before) :
      BatchReaches store thread outcome poolId buf i (pair :: rest) state run other given begun
        before

section Reaches

variable {buf : Nat → PoolBuf} {i : Nat} {pair : NvmKvIovec} {rest : List NvmKvIovec}
  {state between : BatchState} {run reached : DeviceRun ι}
  {happens : NvmKvIovec → PoolBuf → BatchState → DeviceRun ι → Prop}

/-- Something happens in some round. The first round fails, so there is no other one. -/
theorem batchReaches_failed_iff {code : NvmErrorCode}
    (first : (batchPair store poolId pair (buf i) state).run (answerWith store thread outcome) run =
      some ((.error code, between), reached)) :
    (∃ other given begun before, BatchReaches store thread outcome poolId buf i (pair :: rest) state
        run other given begun before ∧ happens other given begun before) ↔
      happens pair (buf i) state run := by
  constructor
  · rintro ⟨other, given, begun, before, comes, happened⟩
    cases comes with
    | here => exact happened
    | later again _ =>
      rw [first] at again
      cases again
  · exact fun happened => ⟨pair, buf i, state, run, .here, happened⟩

/-- Something happens in some round. The first round does not end the loop. -/
theorem batchReaches_next_iff
    (first : (batchPair store poolId pair (buf i) state).run (answerWith store thread outcome) run =
      some ((.ok (), between), reached)) :
    (∃ other given begun before, BatchReaches store thread outcome poolId buf i (pair :: rest) state
        run other given begun before ∧ happens other given begun before) ↔
      happens pair (buf i) state run ∨
        ∃ other given begun before,
          BatchReaches store thread outcome poolId buf (i + 1) rest between
          reached other given begun before ∧ happens other given begun before := by
  constructor
  · rintro ⟨other, given, begun, before, comes, happened⟩
    cases comes with
    | here => exact Or.inl happened
    | later again comes =>
      rw [first] at again
      cases again
      exact Or.inr ⟨other, given, begun, before, comes, happened⟩
  · rintro (happened | ⟨other, given, begun, before, comes, happened⟩)
    · exact ⟨pair, buf i, state, run, .here, happened⟩
    · exact ⟨other, given, begun, before, .later first comes, happened⟩

end Reaches

/-- A batch put comes to a pair: it has accepted the batch and has got its arrays. -/
def BatchComesTo (store : NvmKvStore) (thread : ι) (outcome : Nat → Bool) (poolId : UInt32)
    (kvIov : List NvmKvIovec) (allocation : BatchAllocation) (run : DeviceRun ι)
    (pair : NvmKvIovec) (given : PoolBuf) (begun : BatchState) (before : DeviceRun ι) :
    Prop :=
  BatchAccepted store run.store poolId kvIov ∧
    ∃ iovecTrm iovecWrt, allocation.iovec = some (iovecTrm, iovecWrt) ∧
      BatchReaches store thread outcome poolId allocation.buf 0 kvIov
        (.initial iovecTrm iovecWrt) run pair given begun before

/-- An accepted batch with memory comes to a pair just when its loop reaches the pair. -/
theorem batchComesTo_iff {run before : DeviceRun ι} {iovecTrm iovecWrt : Nat → NvmIovec}
    {pair : NvmKvIovec} {given : PoolBuf} {begun : BatchState}
    (accepted : BatchAccepted store run.store poolId kvIov)
    (allocated : allocation.iovec = some (iovecTrm, iovecWrt)) :
    BatchComesTo store thread outcome poolId kvIov allocation run pair given begun before ↔
      BatchReaches store thread outcome poolId allocation.buf 0 kvIov
        (.initial iovecTrm iovecWrt) run pair given begun before := by
  constructor
  · rintro ⟨_, _, _, arrays, reaches⟩
    rw [allocated] at arrays
    cases arrays
    exact reaches
  · exact fun reaches => ⟨accepted, _, _, allocated, reaches⟩

/-- A batch put that comes to a pair does not end at once. -/
theorem BatchComesTo.begins {run before : DeviceRun ι} {pair : NvmKvIovec}
    {given : PoolBuf} {begun : BatchState}
    (comes : BatchComesTo store thread outcome poolId kvIov allocation run pair given begun
      before) :
    ¬(BatchAccepted store run.store poolId kvIov → allocation.iovec = none) := by
  obtain ⟨accepted, _, _, arrays, _⟩ := comes
  intro refused
  rw [refused accepted] at arrays
  cases arrays

/-- A batch put waits when the loop over its pairs does. -/
theorem run_kvBatchPut_waits {run : DeviceRun ι} {iovecTrm iovecWrt : Nat → NvmIovec}
    (accepted : BatchAccepted store run.store poolId kvIov)
    (allocated : allocation.iovec = some (iovecTrm, iovecWrt))
    (waits : (batchPairs store poolId allocation.buf 0 kvIov (.initial iovecTrm iovecWrt)).run
      (answerWith store thread outcome) run = none) :
    (kvBatchPut store poolId kvIov allocation).run (answerWith store thread outcome) run =
      none := by
  obtain ⟨pool, pairs, few⟩ := accepted
  simp only [kvBatchPut, Program.run_bind, run_kvValidatePoolId_with, Option.bind_some, pool,
    decide_true, Bool.not_true, pairs, decide_false, Bool.or_self, Bool.false_eq_true, if_false,
    Nat.not_lt.mpr few, allocated, waits, Option.bind_none]

/-- A batch put that does not accept its batch or gets no arrays ends at once. -/
theorem run_kvBatchPut_refused {run : DeviceRun ι}
    (refused : BatchAccepted store run.store poolId kvIov → allocation.iovec = none) :
    ∃ code, (kvBatchPut store poolId kvIov allocation).run (answerWith store thread outcome) run =
      some (.error code, run) := by
  simp only [kvBatchPut, Program.run_bind, run_kvValidatePoolId_with, Option.bind_some]
  split_ifs with invalid many
  · exact ⟨_, rfl⟩
  · exact ⟨_, rfl⟩
  · have accepted : BatchAccepted store run.store poolId kvIov := by
      rw [Bool.or_eq_true, not_or, Bool.not_eq_true', Bool.not_eq_false, decide_eq_true_eq,
        decide_eq_true_eq] at invalid
      exact ⟨invalid.1, invalid.2, Nat.not_lt.mp many⟩
    rw [refused accepted]
    exact ⟨_, rfl⟩

end Batches

end Nvmkv
