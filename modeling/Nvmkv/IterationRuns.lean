import Nvmkv.PoolIteration

/-!
# What an iteration comes to

The ranges that an iterator has not come to yet are those in its buffer behind its
position and those that the device has still to hand out. Moving on takes the first of
them, whether it was in the buffer or has to be fetched, so that the size of a portion
has no part in what follows. A client's loop then goes down one list: that of the
mapped ranges of the data area that pass the filter.

The list tells what the loop takes. A range is passed over when its address or its header
belongs to another pool, when it does not start with a header, or when its pair has
expired; a header with a negative pool id ends the loop. The proofs follow the three
loops from the inside to the outside, by induction on the list.
-/

namespace Nvmkv

variable {ι : Type}

/-- The state with other pairs queued for expiry. -/
def SystemState.queued (state : SystemState ι) (queue : List (List NvmIovec)) :
    SystemState ι :=
  { state with store := { state.store with expiryQueue := queue } }

/-- What is queued does not change the media. -/
@[simp] theorem SystemState.queued_media (state : SystemState ι) (queue : List (List NvmIovec)) :
    (state.queued queue).store.media = state.store.media := rfl

/-- Nor the time. -/
@[simp] theorem SystemState.queued_clock (state : SystemState ι) (queue : List (List NvmIovec)) :
    (state.queued queue).store.clock = state.store.clock := rfl

/-- Nor the pools in use. -/
@[simp] theorem SystemState.queued_inUse (state : SystemState ι) (queue : List (List NvmIovec)) :
    (state.queued queue).store.inUse = state.store.inUse := rfl

/-- Nor those that are marked. -/
@[simp] theorem SystemState.queued_deleted (state : SystemState ι)
    (queue : List (List NvmIovec)) :
    (state.queued queue).store.deleted = state.store.deleted := rfl

/-- Of two queues the second one stands. -/
@[simp] theorem SystemState.queued_queued (state : SystemState ι)
    (first second : List (List NvmIovec)) :
    (state.queued first).queued second = state.queued second := rfl

section Ranges

variable (store : NvmKvStore) (media : Media) (poolId : UInt32)

/-- The address of a range has the low bits of the pool. -/
def sharesBits (range : NvmBlockRange) : Bool :=
  store.poolIdHash poolId = range.startLba &&& store.poolMask

/-- The header of a range ends an iteration: its pool id is taken for an error. -/
def endsIteration (range : NvmBlockRange) : Bool :=
  sharesBits store poolId range && store.validatesPoolIdOnMedia &&
    asInt (rangeHeader store media range).poolId < 0

/-- An iterator stops at a range: it belongs to the pool. -/
def ofPool (range : NvmBlockRange) : Bool :=
  sharesBits store poolId range && (!store.validatesPoolIdOnMedia ||
    asInt (rangeHeader store media range).poolId = asInt poolId.toNat)

/-- A range starts with a header whose pair has not expired. -/
def readsAsPair (clock : Nat) (range : NvmBlockRange) : Bool :=
  (rangeHeader store media range).isKey &&
    !pairExpired store clock (rangeHeader store media range)

/-- The mapped ranges that the device hands out for an iteration. -/
def poolRanges : List NvmBlockRange :=
  (media.logicalRanges store.usrData).filter
    (Media.passesFilter (if store.poolIdHash poolId = 0 then 0 else store.poolMask)
      (store.poolIdHash poolId))

/-- What a client takes from a list of ranges, and the code at the end. -/
def taken (clock : Nat) : List NvmBlockRange → List NvmBlockRange × Int
  | [] => ([], NvmErrorCode.objectNotFound.retCode)
  | range :: rest =>
      if endsIteration store media poolId range then
        ([], asInt (rangeHeader store media range).poolId)
      else if ofPool store media poolId range && readsAsPair store media clock range then
        (range :: (taken clock rest).1, (taken clock rest).2)
      else taken clock rest

/-- The next range of a list at which an iterator stops, and the ranges behind it. -/
def nextOfPool : List NvmBlockRange → Except Int (NvmBlockRange × List NvmBlockRange)
  | [] => .error NvmErrorCode.objectNotFound.retCode
  | range :: rest =>
      if endsIteration store media poolId range then
        .error (asInt (rangeHeader store media range).poolId)
      else if ofPool store media poolId range then .ok (range, rest)
      else nextOfPool rest

variable {store media poolId} {clock : Nat}

/-- Where no range of the pool is left, nothing is taken. -/
theorem nextOfPool_error {ranges : List NvmBlockRange} {code : Int}
    (ended : nextOfPool store media poolId ranges = .error code) :
    taken store media poolId clock ranges = ([], code) := by
  induction ranges with
  | nil =>
    rw [nextOfPool, Except.error.injEq] at ended
    rw [taken, ended]
  | cons range rest inductionHypothesis =>
    rw [nextOfPool] at ended
    rw [taken]
    cases ends : endsIteration store media poolId range with
    | true =>
      rw [ends, if_pos rfl, Except.error.injEq] at ended
      rw [if_pos rfl, ended]
    | false =>
      rw [ends, if_neg Bool.false_ne_true] at ended
      rw [if_neg Bool.false_ne_true]
      cases stops : ofPool store media poolId range with
      | true =>
        rw [stops, if_pos rfl] at ended
        exact nomatch ended
      | false =>
        rw [stops, if_neg Bool.false_ne_true] at ended
        rw [Bool.false_and, if_neg Bool.false_ne_true]
        exact inductionHypothesis ended

/-- Ranges before the next one of the pool are not taken. -/
theorem nextOfPool_ok {ranges rest : List NvmBlockRange} {range : NvmBlockRange}
    (moved : nextOfPool store media poolId ranges = .ok (range, rest)) :
    endsIteration store media poolId range = false ∧ ofPool store media poolId range = true ∧
      rest.length < ranges.length ∧
      taken store media poolId clock ranges = taken store media poolId clock (range :: rest) := by
  induction ranges with
  | nil => exact nomatch moved
  | cons first others inductionHypothesis =>
    rw [nextOfPool] at moved
    cases ends : endsIteration store media poolId first with
    | true =>
      rw [ends, if_pos rfl] at moved
      exact nomatch moved
    | false =>
      rw [ends, if_neg Bool.false_ne_true] at moved
      cases stops : ofPool store media poolId first with
      | true =>
        rw [stops, if_pos rfl, Except.ok.injEq, Prod.mk.injEq] at moved
        obtain ⟨rfl, rfl⟩ := moved
        exact ⟨ends, stops, Nat.lt_succ_self _, rfl⟩
      | false =>
        rw [stops, if_neg Bool.false_ne_true] at moved
        obtain ⟨continues, belongs, shorter, same⟩ := inductionHypothesis moved
        refine ⟨continues, belongs, Nat.lt_succ_of_lt shorter, ?_⟩
        rw [taken, ends, stops, Bool.false_and, if_neg Bool.false_ne_true,
          if_neg Bool.false_ne_true, same]

end Ranges

namespace PoolIterator

variable (store : NvmKvStore) (thread : ι) {state : SystemState ι} {media : Media}
  {poolId : UInt32}

/-- The ranges that an iterator has not come to yet. -/
def rest (media : Media) (it : PoolIterator) : List NvmBlockRange :=
  (List.range' (it.pos + 1) (it.numRangesFound - (it.pos + 1))).map it.ranges ++
    (media.logicalRanges it.rangeToIterate).filter
      (Media.passesFilter it.filters.filterMask it.filters.filterPattern)

/-- The ranges that the device has still to hand out. -/
def unfetched (media : Media) (it : PoolIterator) : List NvmBlockRange :=
  (media.logicalRanges it.rangeToIterate).filter
    (Media.passesFilter it.filters.filterMask it.filters.filterPattern)

/-- The portion in the buffer behind its first range. -/
def portion (it : PoolIterator) : List NvmBlockRange :=
  (List.range' 1 (it.numRangesFound - 1)).map it.ranges

/-- How an iterator stops at a range: it takes it, or the pool id of its header is or
becomes an error. It passes over other ranges. -/
def stopAt (media : Media) (buf : Option Region) (it : PoolIterator)
    (range : NvmBlockRange) : Option (Except Int Unit) :=
  if it.poolHash = range.startLba &&& store.poolMask ∨ it.poolId = poolIdAll then
    if store.maxPools ≤ 2 ^ store.poolBits then
      some (.ok ())
    else if buf = none then
      some (.error NvmErrorCode.outOfMemory.retCode)
    else
      let foundPoolId := asInt (rangeHeader store media range).poolId
      if foundPoolId < 0 then some (.error foundPoolId)
      else if foundPoolId = asInt it.poolId.toNat then some (.ok ())
      else none
  else none

/-- What an iterator keeps as it moves on: its pool, the size of its portions and, when the
device has nothing left for it, the portion in its buffer. A portion that it has fetched
was ahead of it. -/
structure Follows (media : Media) (it next : PoolIterator) : Prop where
  pool : next.poolId = it.poolId
  hash : next.poolHash = it.poolHash
  size : next.maxRanges = it.maxRanges
  kept : it.unfetched media = [] → next.unfetched media = [] ∧ next.portion = it.portion
  fetched : it.unfetched media ≠ [] → next.unfetched media = [] →
    ∀ range ∈ next.portion, range ∈ it.rest media

/-- The iterator that has come to the end. -/
def ended (it : PoolIterator) : PoolIterator :=
  { it with
    filters := { it.filters with filterExpiry := 0 }
    pos := 0
    rangeToIterate := ⟨it.rangeToIterate.startLba + it.rangeToIterate.length, 0⟩
    ranges := it.fetched [] }

/-- An iterator over a pool, which fetches some ranges at a time. -/
structure Over (poolId : UInt32) (it : PoolIterator) : Prop where
  pool : it.poolId = poolId
  hash : it.poolHash = store.poolIdHash poolId
  portions : 0 < it.maxRanges

/-- Where an iterator is, and what it has not come to yet. -/
structure At (media : Media) (poolId : UInt32) (range : NvmBlockRange)
    (ranges : List NvmBlockRange) (it : PoolIterator) : Prop extends Over store poolId it where
  here : it.getIterLoc = range
  ahead : it.rest media = ranges

/-- The rounds of the loops are enough for the ranges ahead. -/
theorem rest_length_le (it : PoolIterator) : (it.rest media).length ≤ it.roundsLeft := by
  have buffered : ((List.range' (it.pos + 1) (it.numRangesFound - (it.pos + 1))).map
      it.ranges).length ≤ it.numRangesFound := by
    rw [List.length_map, List.length_range']
    exact Nat.sub_le _ _
  have fetched : ((media.logicalRanges it.rangeToIterate).filter
      (Media.passesFilter it.filters.filterMask it.filters.filterPattern)).length ≤
      it.rangeToIterate.length := by
    refine (List.length_filter_le _ _).trans ?_
    rw [Media.logicalRanges, List.length_map]
    refine (List.length_filter_le _ _).trans ?_
    rw [List.length_range']
  rw [rest, List.length_append]
  exact Nat.add_le_add buffered fetched

variable {store} {it : PoolIterator}

/-- An iterator that moves on stays one over its pool. -/
theorem Over.follows {next : PoolIterator} (iterates : Over store poolId it)
    (moved : Follows media it next) : Over store poolId next :=
  ⟨moved.pool.trans iterates.pool, moved.hash.trans iterates.hash,
    iterates.portions.trans_eq moved.size.symm⟩

/-- The iterator of a pool in use is valid. -/
theorem Over.run_validateIter (iterates : Over store poolId it)
    (used : poolStatus state.store.inUse state.store.deleted poolId = .poolInUse) :
    it.validateIter.run (answerSystem store thread) state = some (true, state) := by
  simp only [validateIter, iterates.pool, Program.run_bind, run_liftStore, run_checkPoolStatus,
    Option.map_some, Option.bind_some, used, true_or, decide_true, Program.run_pure]

/-- The device answers with the mapped ranges of its media. -/
@[simp] theorem run_nvmLogicalRanges (search : NvmBlockRange)
    (maxRanges filterMask filterPattern : Nat) :
    (nvmLogicalRanges search maxRanges filterMask filterPattern).run
      (answerSystem store thread) state =
    some (some (state.store.media.logicalRangeIterator search maxRanges filterMask
      filterPattern), state) := rfl

/-- With nothing ahead, moving on reports the end. -/
theorem run_moveOn_end (nothing : it.rest state.store.media = []) :
    it.moveOn.run (answerSystem store thread) state =
      some ((.error NvmErrorCode.objectNotFound.retCode, it.ended), state) := by
  rw [rest, List.append_eq_nil_iff, List.map_eq_nil_iff, List.range'_eq_nil_iff] at nothing
  obtain ⟨drained, ended⟩ := nothing
  have last : ¬it.pos + 1 < it.numRangesFound := by omega
  have found : ((state.store.media.logicalRanges it.rangeToIterate).filter
      (Media.passesFilter it.filters.filterMask it.filters.filterPattern)).take it.maxRanges =
      [] := by
    rw [ended, List.take_nil]
  simp only [moveOn, if_neg last, Program.run_bind, Option.bind_some, run_nvmLogicalRanges,
    Media.logicalRangeIterator, found, List.length_nil, if_true, Program.run_pure]
  rfl

/-- Moving on comes to the first range ahead. It is the next one in the buffer, or the
first of those that the device returns now, which then are in the buffer with it. -/
theorem run_moveOn_next (portions : 0 < it.maxRanges) {range : NvmBlockRange}
    {ranges : List NvmBlockRange} (ahead : it.rest state.store.media = range :: ranges) :
    ∃ next, it.moveOn.run (answerSystem store thread) state = some ((.ok (), next), state) ∧
      Follows state.store.media it next ∧ next.getIterLoc = range ∧
      next.rest state.store.media = ranges := by
  by_cases inside : it.pos + 1 < it.numRangesFound
  · obtain ⟨count, more⟩ : ∃ count, it.numRangesFound - (it.pos + 1) = count + 1 :=
      ⟨it.numRangesFound - (it.pos + 1) - 1, by omega⟩
    have fewer : it.numRangesFound - (it.pos + 1 + 1) = count := by omega
    rw [rest, more, List.range'_succ, List.map_cons, List.cons_append, List.cons.injEq] at ahead
    refine ⟨{ it with pos := it.pos + 1 }, ?_,
      ⟨rfl, rfl, rfl, fun none => ⟨none, rfl⟩, fun some none => absurd none some⟩, ahead.1, ?_⟩
    · simp only [moveOn, if_pos inside, Program.run_pure]
    · rw [rest, fewer]
      exact ahead.2
  · have drained : it.numRangesFound - (it.pos + 1) = 0 := by omega
    have fetches : it.rest state.store.media = it.unfetched state.store.media := by
      rw [rest, drained, List.range'_zero, List.map_nil, List.nil_append, unfetched]
    have unread := fetches.symm.trans ahead
    rw [unfetched] at unread
    obtain ⟨maxRanges, more⟩ : ∃ maxRanges, it.maxRanges = maxRanges + 1 :=
      ⟨it.maxRanges - 1, by omega⟩
    obtain ⟨left, called⟩ : ∃ left, state.store.media.logicalRangeIterator it.rangeToIterate
        it.maxRanges it.filters.filterMask it.filters.filterPattern =
          (range :: ranges.take maxRanges, left) := by
      rw [Media.logicalRangeIterator, unread, more, List.take_succ_cons]
      exact ⟨_, rfl⟩
    obtain ⟨_, _, _, _, further⟩ := Media.logicalRangeIterator_rest portions called
    have found : (range :: ranges.take maxRanges).length ≠ 0 := Nat.succ_ne_zero _
    have buffered : (List.range' 1 ((range :: ranges.take maxRanges).length - 1)).map
        (it.fetched (range :: ranges.take maxRanges)) = ranges.take maxRanges := by
      apply List.ext_getElem
      · simp
      · intro i short inside
        rw [List.getElem_map, List.getElem_range', Nat.one_mul, KvBatchIterator.fetched,
          Nat.add_comm 1 i, List.getElem?_cons_succ, List.getElem?_eq_getElem inside,
          Option.getD_some]
    have others := further state.store.media fun _ _ _ => rfl
    rw [unread, more, List.drop_succ_cons] at others
    refine ⟨{ it with
      filters := { it.filters with filterExpiry := 0 }
      pos := 0
      rangeToIterate := left
      ranges := it.fetched (range :: ranges.take maxRanges)
      numRangesFound := (range :: ranges.take maxRanges).length }, ?_,
      ⟨rfl, rfl, rfl, ?_, ?_⟩, rfl, ?_⟩
    · simp only [moveOn, if_neg inside, Program.run_bind, Option.bind_some, run_nvmLogicalRanges,
        called, if_neg found, Program.run_pure]
      rfl
    · intro none
      rw [unfetched, unread] at none
      exact absurd none (List.cons_ne_nil _ _)
    · intro _ _ other listed
      rw [portion, buffered] at listed
      rw [ahead]
      exact List.mem_cons_of_mem range (List.mem_of_mem_take listed)
    · rw [rest]
      dsimp only
      rw [Nat.zero_add, buffered, others, List.take_append_drop]

/-- An iterator over a pool in use moves on when it is asked to. -/
theorem Over.run_iterate (iterates : Over store poolId it)
    (used : poolStatus state.store.inUse state.store.deleted poolId = .poolInUse) :
    it.iterate.run (answerSystem store thread) state =
      it.moveOn.run (answerSystem store thread) state := by
  simp only [iterate, Program.run_bind, iterates.run_validateIter thread used, Option.bind_some,
    Bool.not_true, Bool.false_eq_true, if_false]

/-- A header is read into a buffer. -/
theorem run_getPoolid (range : NvmBlockRange) (region : Region) :
    (getPoolid store range.startLba (some region)).run (answerSystem store thread) state =
      some (asInt (rangeHeader store state.store.media range).poolId, state) := by
  simp only [getPoolid, Program.run_bind, run_liftStore, run_nvmReadv_sector, Option.map_some,
    Option.bind_some, List.headD_cons, readHeader_slotBuffer, Program.run_pure]
  rfl

/-- A round that cannot move on ends the loop. -/
theorem run_loop_error {buf : Option Region} {code : Int} {rounds : Nat}
    {next : PoolIterator}
    (moved : it.iterate.run (answerSystem store thread) state =
      some ((.error code, next), state)) :
    (it.iterOverPoolLoop store buf (rounds + 1)).run (answerSystem store thread) state =
      some ((.error code, next), state) := by
  simp only [iterOverPoolLoop, Program.run_bind, moved, Option.bind_some, Program.run_pure]

/-- A round that moves on stops at the range it comes to, or leaves it to the next
round. -/
theorem run_loop_ok {buf : Option Region} {rounds : Nat} {next : PoolIterator}
    (moved : it.iterate.run (answerSystem store thread) state = some ((.ok (), next), state)) :
    (it.iterOverPoolLoop store buf (rounds + 1)).run (answerSystem store thread) state =
      match next.stopAt store state.store.media buf next.getIterLoc with
      | some verdict => some ((verdict, next), state)
      | none => (next.iterOverPoolLoop store buf rounds).run (answerSystem store thread) state := by
  simp only [iterOverPoolLoop, Program.run_bind, moved, Option.bind_some, stopAt]
  by_cases shares : next.poolHash = next.getIterLoc.startLba &&& store.poolMask ∨
      next.poolId = poolIdAll
  · simp only [if_pos shares]
    by_cases few : store.maxPools ≤ 2 ^ store.poolBits
    · simp only [if_pos few, Program.run_pure]
    · simp only [if_neg few]
      cases buf with
      | none =>
        have memory : NvmErrorCode.outOfMemory.retCode < 0 := by decide
        simp only [getPoolid, Program.run_bind, Program.run_pure, Option.bind_some,
          if_pos memory, if_true]
      | some region =>
        simp only [Program.run_bind, run_getPoolid, Option.bind_some, reduceCtorEq, if_false]
        by_cases negative :
            asInt (rangeHeader store state.store.media next.getIterLoc).poolId < 0
        · simp only [if_pos negative, Program.run_pure]
        · simp only [if_neg negative]
          by_cases same : asInt (rangeHeader store state.store.media next.getIterLoc).poolId =
              asInt next.poolId.toNat
          · simp only [if_pos same, Program.run_pure]
          · simp only [if_neg same]
  · simp only [if_neg shares]

/-- At the ranges of its pool an iterator stops, and at those that end the iteration. -/
theorem Over.stopAt_eq (iterates : Over store poolId it) (single : poolId ≠ poolIdAll)
    (buf : Region) (range : NvmBlockRange) :
    it.stopAt store media (some buf) range =
      if endsIteration store media poolId range then
        some (.error (asInt (rangeHeader store media range).poolId))
      else if ofPool store media poolId range then some (.ok ())
      else none := by
  rw [stopAt, endsIteration, ofPool, sharesBits, iterates.hash, iterates.pool]
  by_cases shares : store.poolIdHash poolId = range.startLba &&& store.poolMask
  · by_cases few : store.maxPools ≤ 2 ^ store.poolBits
    · have trusted : store.validatesPoolIdOnMedia = false :=
        decide_eq_false (Nat.not_lt_of_le few)
      simp [shares, few, trusted]
    · have checked : store.validatesPoolIdOnMedia = true :=
        decide_eq_true (Nat.lt_of_not_le few)
      simp [shares, few, checked]
  · simp [shares, single]

/-- A program moves an iterator on to the next one of some ranges that is of the pool, or
ends with their code. It leaves the state alone. -/
def MovesOn (store : NvmKvStore) (thread : ι) (state : SystemState ι) (poolId : UInt32)
    (ranges : List NvmBlockRange) (program : SystemM (Except Int Unit × PoolIterator)) : Prop :=
  (∃ code after, nextOfPool store state.store.media poolId ranges = .error code ∧
    program.run (answerSystem store thread) state = some ((.error code, after), state)) ∨
  ∃ range rest after, nextOfPool store state.store.media poolId ranges = .ok (range, rest) ∧
    program.run (answerSystem store thread) state = some ((.ok (), after), state) ∧
    At store state.store.media poolId range rest after

/-- Induction is on the rounds: each takes the first of the ranges ahead. -/
theorem movesOn_iterOverPoolLoop {buf : Region}
    (used : poolStatus state.store.inUse state.store.deleted poolId = .poolInUse)
    (single : poolId ≠ poolIdAll) (rounds : Nat) {it : PoolIterator}
    (iterates : Over store poolId it) (enough : (it.rest state.store.media).length < rounds) :
    MovesOn store thread state poolId (it.rest state.store.media)
      (it.iterOverPoolLoop store (some buf) rounds) := by
  induction rounds generalizing it with
  | zero => omega
  | succ rounds inductionHypothesis =>
    cases ahead : it.rest state.store.media with
    | nil =>
      have ran := @run_moveOn_end ι store thread state it ahead
      rw [← iterates.run_iterate thread used] at ran
      exact Or.inl ⟨_, it.ended, rfl, run_loop_error thread ran⟩
    | cons range ranges =>
      obtain ⟨next, ran, follows, here, left⟩ :=
        run_moveOn_next thread iterates.portions ahead
      rw [← iterates.run_iterate thread used] at ran
      have moved : At store state.store.media poolId range ranges next :=
        ⟨iterates.follows follows, here, left⟩
      have short : (next.rest state.store.media).length < rounds := by
        rw [moved.ahead]
        rw [ahead, List.length_cons] at enough
        omega
      have further := inductionHypothesis moved.toOver short
      rw [moved.ahead] at further
      unfold MovesOn at further ⊢
      rw [run_loop_ok thread ran, here, moved.toOver.stopAt_eq single, nextOfPool]
      cases ends : endsIteration store state.store.media poolId range with
      | true => exact Or.inl ⟨_, next, rfl, rfl⟩
      | false =>
        cases belongs : ofPool store state.store.media poolId range with
        | true => exact Or.inr ⟨range, ranges, next, rfl, rfl, moved⟩
        | false => exact further

/-- The id for all pools is not the id of a pool in use. -/
theorem single_of_used
    (used : poolStatus state.store.inUse state.store.deleted poolId = .poolInUse) :
    poolId ≠ poolIdAll := by
  rintro rfl
  rw [poolStatus, if_pos (Or.inl (by decide))] at used
  exact nomatch used

/-- An iterator over a pool in use moves on along the ranges that it has ahead. Induction is on
them. -/
theorem movesOn_iterOverPool {buf : Region}
    (used : poolStatus state.store.inUse state.store.deleted poolId = .poolInUse)
    (iterates : Over store poolId it) :
    MovesOn store thread state poolId (it.rest state.store.media)
      (it.iterOverPool store (some buf)) := by
  have looped := @movesOn_iterOverPoolLoop ι store thread state poolId buf used
    (single_of_used used) (it.roundsLeft + 1) it iterates (Nat.lt_succ_of_le it.rest_length_le)
  unfold MovesOn at looped ⊢
  simp only [iterOverPool, Program.run_bind, iterates.run_validateIter thread used,
    Option.bind_some, Bool.not_true, Bool.false_eq_true, if_false]
  exact looped

end PoolIterator

/-- A range is as long as the pair at its front: one sector when the value lies behind the
key in the header's sector, and the sectors of the value behind that sector otherwise. -/
def ExactlyPair (store : NvmKvStore) (hdr : NvmKvHeader) (range : NvmBlockRange) : Prop :=
  (hdr.valueOffset + hdr.valueLen ≤ store.sectorSize ∧ range.length = 1) ∨
    (hdr.valueOffset = store.sectorSize ∧
      range.length = valueSectors store.capabilities hdr.valueLen + 1)

/-- What a client took was read at a range. The value is the one stored there when the
range is that of the pair and the caller's buffer is large enough. -/
structure TakenFrom (store : NvmKvStore) (media : Media) (bufferLen : Nat)
    (range : NvmBlockRange) (pair : CurrentPair) : Prop where
  address : pair.keyLoc = range.startLba
  key : pair.key = (media.read store.sectorSize range.startLba).slice mKvHeaderSize
    (rangeHeader store media range).keyLen
  keyLen : pair.keyLen = (rangeHeader store media range).keyLen
  valueLen : pair.valueLen = (rangeHeader store media range).valueLen
  length : pair.length = min bufferLen (rangeHeader store media range).valueLen
  value : ExactlyPair store (rangeHeader store media range) range →
    (rangeHeader store media range).valueLen ≤ bufferLen →
    ∀ i, i < (rangeHeader store media range).valueLen →
      pair.value i = media.read store.sectorSize range.startLba
        ((rangeHeader store media range).valueOffset + i)

/-- The sectors of a value that is not in the header's sector are read into the caller's
buffer as far as the value goes. -/
theorem currentBuffers_reads {store : NvmKvStore} {value : Memory} {bufferLen valueLen : Nat}
    {buf : Region} {range : NvmBlockRange} (accepted : bufferLen ≤ nvmKvMaxValueSize)
    (large : valueLen ≤ bufferLen) (nonempty : 0 < valueLen)
    (length : range.length = valueSectors store.capabilities valueLen + 1) :
    (currentBuffers store value bufferLen buf range).numIovs = 2 ∧
      valueLen ≤ (currentBuffers store value bufferLen buf range).valueIovLen := by
  have limit : (nvmKvMaxValueSize : Nat) = 1047552 := rfl
  have positive := store.sector_positive
  have small := store.sector_upper
  have rounded : nvmKvRoundUptoBlk bufferLen store.sectorSize =
      valueSectors store.capabilities bufferLen * store.sectorSize :=
    store.capabilities.round_upto_sector bufferLen (by omega)
  have covers : valueLen ≤ valueSectors store.capabilities valueLen * store.sectorSize ∧
      valueSectors store.capabilities valueLen * store.sectorSize < valueLen + store.sectorSize :=
    valueSectors_covers store.capabilities valueLen
  have all : bufferLen ≤ valueSectors store.capabilities bufferLen * store.sectorSize :=
    (valueSectors_covers store.capabilities bufferLen).1
  have bytes : range.length * store.sectorSize % 2 ^ 64 =
      valueSectors store.capabilities valueLen * store.sectorSize + store.sectorSize := by
    rw [length, Nat.add_mul, Nat.one_mul, Nat.mod_eq_of_lt (by omega)]
  have longer : store.sectorSize < range.length * store.sectorSize % 2 ^ 64 := by omega
  constructor
  · rw [currentBuffers]
    exact if_pos longer
  · rw [currentBuffers]
    dsimp only
    rw [if_pos longer, bytes, rounded]
    omega

/-- What `kv_get_current` returns after it has read a range that starts with a header. -/
theorem takenFrom_currentPair {store : NvmKvStore} (media : Media) {bufferLen : Nat}
    (value : Memory) (buf : Region) {range : NvmBlockRange}
    (accepted : bufferLen ≤ nvmKvMaxValueSize)
    (isKey : (rangeHeader store media range).isKey = true) :
    TakenFrom store media bufferLen range
      (currentPair store bufferLen range.startLba
        (slotBuffer store media buf range.startLba)
        (readValue store media (currentBuffers store value bufferLen buf range) value.bytes
          range.startLba)) := by
  have header : readHeader (slotBuffer store media buf range.startLba) =
      rangeHeader store media range := readHeader_slotBuffer store media buf range.startLba
  have short : (rangeHeader store media range).keyLen ≤ nvmKvMaxKeySize :=
    (of_decide_eq_true isKey).2
  have room := header_fits_sector store
  refine ⟨rfl, ?_, by rw [currentPair, header], by rw [currentPair, header], ?_, ?_⟩
  · rw [currentPair, header]
    apply Region.slice_congr
    intro i _ below
    exact slotBuffer_inside store media buf range.startLba (by omega)
  · rw [currentPair, header]
    dsimp only
    split <;> omega
  · intro ownRange large i below
    have whole : ¬bufferLen < (rangeHeader store media range).valueLen := by omega
    rw [currentPair, header]
    simp only [if_neg whole]
    rcases ownRange with ⟨fits, _⟩ | ⟨behind, length⟩
    · have inside : (rangeHeader store media range).valueOffset < store.sectorSize := by omega
      rw [if_pos inside, Region.copy_inside _ _ ⟨Nat.zero_le i, by omega⟩, Nat.sub_zero,
        Region.drop]
      exact slotBuffer_inside store media buf range.startLba (by omega)
    · obtain ⟨double, reaches⟩ := @currentBuffers_reads store value bufferLen _ buf range
        accepted large (by omega) length
      rw [if_neg (by omega), readValue, if_pos double,
        Region.copy_inside _ _ ⟨Nat.zero_le i, by omega⟩, Nat.sub_zero, Region.drop, behind]

section Loops

variable {store : NvmKvStore} (thread : ι) {poolId : UInt32} {buffers : IterationBuffers}
  {poolIdBuf headerBuf : Region}

/-- What an iteration needs of its buffers: memory for the pools of buffers, an aligned
buffer of the caller's, and a device that takes two vectors at a time. -/
structure IterationReady (store : NvmKvStore) (buffers : IterationBuffers)
    (poolIdBuf headerBuf : Region) : Prop where
  poolId : buffers.poolIdBuf = some poolIdBuf
  header : buffers.headerBuf = some headerBuf
  positive : 0 < buffers.valueLen
  accepted : buffers.valueLen ≤ nvmKvMaxValueSize
  aligned : buffers.value.address % store.sectorSize = 0
  vectors : 2 ≤ store.capabilities.nvmMaxNumIovs

/-- A program takes the first pair of some ranges and leaves the iterator there, or ends
with their code. Of the state it changes the queued pairs alone. -/
def TakesFirst (store : NvmKvStore) (thread : ι) (buffers : IterationBuffers) (poolId : UInt32)
    (state : SystemState ι) (ranges : List NvmBlockRange)
    (program : SystemM (Except Int CurrentPair × Memory × PoolIterator)) : Prop :=
  ∃ queue after, ∃ memory : Memory, memory.address = buffers.value.address ∧
    ((∃ code, taken store state.store.media poolId state.store.clock ranges = ([], code) ∧
      program.run (answerSystem store thread) state =
        some ((.error code, memory, after), state.queued queue)) ∨
    ∃ found rest pair, rest.length < ranges.length ∧
      taken store state.store.media poolId state.store.clock ranges =
        (found :: (taken store state.store.media poolId state.store.clock rest).1,
          (taken store state.store.media poolId state.store.clock rest).2) ∧
      program.run (answerSystem store thread) state =
        some ((.ok pair, memory, after), state.queued queue) ∧
      TakenFrom store state.store.media buffers.valueLen found pair ∧
      after.At store state.store.media poolId found rest)

/-- A program takes what its rest takes, when nothing is taken before. -/
theorem TakesFirst.before {state : SystemState ι} {ranges others : List NvmBlockRange}
    {program other : SystemM (Except Int CurrentPair × Memory × PoolIterator)}
    (queue : List (List NvmIovec))
    (takes : TakesFirst store thread buffers poolId (state.queued queue) others other)
    (runs : program.run (answerSystem store thread) state =
      other.run (answerSystem store thread) (state.queued queue))
    (fewer : others.length ≤ ranges.length)
    (same : taken store state.store.media poolId state.store.clock ranges =
      taken store state.store.media poolId state.store.clock others) :
    TakesFirst store thread buffers poolId state ranges program := by
  obtain ⟨further, after, memory, placed, outcome⟩ := takes
  refine ⟨further, after, memory, placed, ?_⟩
  rw [runs, same]
  rcases outcome with ended | ⟨found, rest, pair, shorter, took, ran, read, there⟩
  · exact Or.inl ended
  · exact Or.inr ⟨found, rest, pair, shorter.trans_le fewer, took, ran, read, there⟩

/-- The caller's buffer after a range was read. -/
def rangeRead (store : NvmKvStore) (media : Media) (bufferLen : Nat) (headerBuf : Region)
    (range : NvmBlockRange) (value : Memory) : Memory :=
  ⟨value.address, readValue store media (currentBuffers store value bufferLen headerBuf range)
    value.bytes range.startLba⟩

section Rounds

variable {thread} {state : SystemState ι} {value : Memory} {it : PoolIterator} {rounds : Nat}

/-- What the device delivers of a range. -/
theorem run_nvmReadv_range {range : NvmBlockRange}
    (readable : Readable store (currentBuffers store value buffers.valueLen headerBuf range)) :
    ∃ readLen regions, readLen ≠ 0 ∧
      (nvmReadv store (readIovec store (currentBuffers store value buffers.valueLen headerBuf
        range) range.startLba)).run (answer store thread) state.store =
        some (.ok (readLen, regions), state.store) ∧
      regions.headD headerBuf = slotBuffer store state.store.media headerBuf range.startLba ∧
      regions.getD 1 value.bytes =
        (rangeRead store state.store.media buffers.valueLen headerBuf range value).bytes ∧
      readHeader (slotBuffer store state.store.media headerBuf range.startLba) =
        rangeHeader store state.store.media range := by
  obtain ⟨readLen, regions, nonzero, read, front, back⟩ :=
    run_nvmReadv_pair store thread state.store readable range.startLba
  exact ⟨readLen, regions, nonzero, read, front, back,
    readHeader_slotBuffer store state.store.media headerBuf range.startLba⟩

/-- A round at a range that is no unexpired pair leaves the range. An expired pair may have been
queued. -/
theorem run_getCurrentLoop_passes (allocated : buffers.headerBuf = some headerBuf)
    (accepted : it.validateIter.run (answerSystem store thread) state = some (true, state))
    (readable : Readable store
      (currentBuffers store value buffers.valueLen headerBuf it.getIterLoc))
    (misread : readsAsPair store state.store.media state.store.clock it.getIterLoc = false) :
    ∃ queue, (getCurrentLoop store buffers (rounds + 1) value it).run (answerSystem store thread)
        state =
      (passOver store buffers (rangeRead store state.store.media buffers.valueLen headerBuf
          it.getIterLoc value) it
        (getCurrentLoop store buffers rounds (rangeRead store state.store.media buffers.valueLen
          headerBuf it.getIterLoc value))).run (answerSystem store thread)
        (state.queued queue) := by
  obtain ⟨readLen, regions, nonzero, read, front, back, header⟩ :=
    @run_nvmReadv_range ι store thread buffers headerBuf state value it.getIterLoc readable
  cases isKey : (rangeHeader store state.store.media it.getIterLoc).isKey with
  | false =>
    refine ⟨state.store.expiryQueue, ?_⟩
    simp only [getCurrentLoop, Program.run_bind, accepted, Option.bind_some, Bool.not_true,
      Bool.false_eq_true, if_false, allocated, run_liftStore, read, Option.map_some, front,
      back, header, isKey, Bool.not_false, or_true, if_true]
    rfl
  | true =>
    have expired : pairExpired store state.store.clock
        (rangeHeader store state.store.media it.getIterLoc) = true := by
      rwa [readsAsPair, isKey, Bool.true_and, Bool.not_eq_false'] at misread
    refine ⟨(state.store.queue store it.getIterLoc.startLba
      (rangeHeader store state.store.media it.getIterLoc)).expiryQueue, ?_⟩
    simp only [getCurrentLoop, Program.run_bind, accepted, Option.bind_some, Bool.not_true,
      Bool.false_eq_true, if_false, allocated, run_liftStore, read, Option.map_some, front,
      back, header, isKey, nonzero, or_self, run_kvExpire_queue, expired, if_true]
    rfl

/-- A round at an unexpired pair ends the call with the pair. -/
theorem run_getCurrentLoop_takes (allocated : buffers.headerBuf = some headerBuf)
    (accepted : it.validateIter.run (answerSystem store thread) state = some (true, state))
    (readable : Readable store
      (currentBuffers store value buffers.valueLen headerBuf it.getIterLoc))
    (reads : readsAsPair store state.store.media state.store.clock it.getIterLoc = true) :
    ∃ pair, pair = currentPair store buffers.valueLen it.getIterLoc.startLba
        (slotBuffer store state.store.media headerBuf it.getIterLoc.startLba)
        (rangeRead store state.store.media buffers.valueLen headerBuf it.getIterLoc value).bytes ∧
      (getCurrentLoop store buffers (rounds + 1) value it).run (answerSystem store thread) state =
        some ((.ok pair, ⟨value.address, pair.value⟩, it), state) := by
  obtain ⟨readLen, regions, nonzero, read, front, back, header⟩ :=
    @run_nvmReadv_range ι store thread buffers headerBuf state value it.getIterLoc readable
  rw [readsAsPair, Bool.and_eq_true, Bool.not_eq_true'] at reads
  obtain ⟨isKey, unexpired⟩ := reads
  refine ⟨_, rfl, ?_⟩
  simp only [getCurrentLoop, Program.run_bind, accepted, Option.bind_some, Bool.not_true,
    Bool.false_eq_true, if_false, allocated, run_liftStore, read, Option.map_some, front, back,
    header, isKey, nonzero, or_self, run_kvExpire_queue, unexpired, Program.run_pure]

end Rounds

/-- A range that is passed over has no part in what is taken: the call goes on at the next range
of the pool. -/
theorem takesFirst_passOver (ready : IterationReady store buffers poolIdBuf headerBuf)
    {state : SystemState ι} {range : NvmBlockRange} {ranges : List NvmBlockRange}
    {it : PoolIterator} {memory : Memory} {rounds : Nat}
    (used : poolStatus state.store.inUse state.store.deleted poolId = .poolInUse)
    (placed : memory.address = buffers.value.address)
    (here : it.At store state.store.media poolId range ranges)
    (goesOn : ∀ next rest (after : PoolIterator),
      after.At store state.store.media poolId next rest →
      endsIteration store state.store.media poolId next = false →
      ofPool store state.store.media poolId next = true → rest.length < ranges.length →
      TakesFirst store thread buffers poolId state (next :: rest)
        (getCurrentLoop store buffers rounds memory after)) :
    TakesFirst store thread buffers poolId state ranges
      (passOver store buffers memory it (getCurrentLoop store buffers rounds memory)) := by
  have moves := @PoolIterator.movesOn_iterOverPool ι store thread state poolId it poolIdBuf used
    here.toOver
  rw [here.ahead] at moves
  rcases moves with ⟨code, after, ended, ran⟩ | ⟨next, rest, after, found, ran, there⟩
  · refine ⟨state.store.expiryQueue, after, memory, placed,
      Or.inl ⟨code, nextOfPool_error ended, ?_⟩⟩
    simp only [passOver, ready.poolId, Program.run_bind, ran, Option.bind_some,
      Program.run_pure]
    rfl
  · obtain ⟨remains, stops, shorter, same⟩ :=
      @nextOfPool_ok store _ poolId state.store.clock _ _ _ found
    refine TakesFirst.before thread state.store.expiryQueue
      (goesOn next rest after there remains stops (by omega)) ?_ shorter same
    simp only [passOver, ready.poolId, Program.run_bind, ran, Option.bind_some]
    rfl

/-- Fetching at a range of the pool takes the first pair from there on. Induction is on
the rounds: a round takes the pair at the range, or passes over the range and goes on
from the next one of the pool. -/
theorem takesFirst_getCurrentLoop (ready : IterationReady store buffers poolIdBuf headerBuf)
    (rounds : Nat) {state : SystemState ι} {value : Memory} {range : NvmBlockRange}
    {ranges : List NvmBlockRange} {it : PoolIterator}
    (used : poolStatus state.store.inUse state.store.deleted poolId = .poolInUse)
    (placed : value.address = buffers.value.address)
    (here : it.At store state.store.media poolId range ranges)
    (continues : endsIteration store state.store.media poolId range = false)
    (belongs : ofPool store state.store.media poolId range = true)
    (enough : ranges.length < rounds) :
    TakesFirst store thread buffers poolId state (range :: ranges)
      (getCurrentLoop store buffers rounds value it) := by
  induction rounds generalizing state value range ranges it with
  | zero => omega
  | succ rounds inductionHypothesis =>
    have valid := here.toOver.run_validateIter thread used
    have readable : Readable store
        (currentBuffers store value buffers.valueLen headerBuf it.getIterLoc) := by
      refine ⟨?_, fun _ => ?_⟩
      · have vectors := ready.vectors
        split <;> omega
      · rw [currentBuffers, placed]
        exact ready.aligned
    cases reads : readsAsPair store state.store.media state.store.clock range with
    | false =>
      rw [← here.here] at reads
      obtain ⟨queue, runs⟩ := @run_getCurrentLoop_passes ι store thread buffers headerBuf state
        value it rounds ready.header valid readable reads
      have skips : taken store state.store.media poolId state.store.clock (range :: ranges) =
          taken store state.store.media poolId state.store.clock ranges := by
        rw [taken, continues, ← here.here, reads, Bool.and_false, if_neg Bool.false_ne_true,
          if_neg Bool.false_ne_true]
      refine TakesFirst.before thread queue ?_ runs (Nat.le_succ _) skips
      refine takesFirst_passOver thread ready used placed here ?_
      intro next rest after there remains stops fewer
      exact @inductionHypothesis (state.queued queue) _ next rest after used placed there remains
        stops (by omega)
    | true =>
      have took := takenFrom_currentPair state.store.media value headerBuf ready.accepted
        (Bool.and_eq_true _ _ ▸ reads).1
      rw [← here.here] at reads
      obtain ⟨pair, made, ran⟩ := @run_getCurrentLoop_takes ι store thread buffers headerBuf state
        value it rounds ready.header valid readable reads
      rw [here.here] at made reads
      refine ⟨state.store.expiryQueue, it, ⟨value.address, pair.value⟩, placed,
        Or.inr ⟨range, ranges, pair, Nat.lt_succ_self _, ?_, ran, made ▸ took, here⟩⟩
      rw [taken, continues, belongs, reads, Bool.true_and, if_neg Bool.false_ne_true,
        if_pos rfl]

/-- What a client has taken from the ranges of its list. -/
def TakesAll (store : NvmKvStore) (thread : ι) (buffers : IterationBuffers) (poolId : UInt32)
    (state : SystemState ι) (ranges : List NvmBlockRange)
    (program : SystemM (List CurrentPair × Int)) : Prop :=
  ∃ queue entries, program.run (answerSystem store thread) state =
      some ((entries, (taken store state.store.media poolId state.store.clock ranges).2),
        state.queued queue) ∧
    List.Forall₂ (TakenFrom store state.store.media buffers.valueLen)
      (taken store state.store.media poolId state.store.clock ranges).1 entries

/-- The client's loop takes all that there is to take. Induction is on its rounds: each
takes one pair and moves on. -/
theorem takesAll_iterateLoop (ready : IterationReady store buffers poolIdBuf headerBuf)
    (rounds : Nat) {state : SystemState ι} {value : Memory} {range : NvmBlockRange}
    {ranges : List NvmBlockRange} {it : PoolIterator}
    (used : poolStatus state.store.inUse state.store.deleted poolId = .poolInUse)
    (placed : value.address = buffers.value.address)
    (here : it.At store state.store.media poolId range ranges)
    (continues : endsIteration store state.store.media poolId range = false)
    (belongs : ofPool store state.store.media poolId range = true)
    (enough : ranges.length < rounds) :
    TakesAll store thread buffers poolId state (range :: ranges)
      (iterateLoop store buffers rounds value it) := by
  induction rounds generalizing state value range ranges it with
  | zero => omega
  | succ rounds inductionHypothesis =>
    have valid : kvValidateValue store false buffers.valueLen = true :=
      decide_eq_true ⟨ready.positive, ready.accepted, fun impossible => Bool.noConfusion impossible⟩
    have bounded : ranges.length < it.roundsLeft + 1 :=
      Nat.lt_succ_of_le (here.ahead ▸ it.rest_length_le)
    obtain ⟨queue, after, memory, aligned, outcome⟩ := takesFirst_getCurrentLoop thread ready
      (it.roundsLeft + 1) used placed here continues belongs bounded
    rcases outcome with ⟨code, nothing, ran⟩ | ⟨found, rest, pair, shorter, took, ran, read, there⟩
    · refine ⟨queue, [], ?_, ?_⟩
      · rw [nothing]
        simp only [iterateLoop, kvGetCurrent, valid, if_true, Program.run_bind, ran,
          Option.bind_some, Program.run_pure]
      · rw [nothing]
        exact List.Forall₂.nil
    · have moves := @PoolIterator.movesOn_iterOverPool ι store thread (state.queued queue) poolId
        after poolIdBuf used there.toOver
      rw [SystemState.queued_media, there.ahead] at moves
      rcases moves with ⟨code, last, ended, moved⟩ | ⟨next, others, last, onward, moved, stands⟩
      · have nothing := @nextOfPool_error store _ poolId state.store.clock _ _ ended
        rw [SystemState.queued_media] at nothing
        rw [nothing] at took
        refine ⟨queue, [pair], ?_, ?_⟩
        · rw [took]
          simp only [iterateLoop, kvGetCurrent, valid, if_true, Program.run_bind, ran,
            Option.bind_some, kvNext, ready.poolId, moved, Program.run_pure]
        · rw [took]
          exact List.Forall₂.cons read List.Forall₂.nil
      · obtain ⟨remains, stops, fewer, same⟩ :=
          @nextOfPool_ok store _ poolId state.store.clock _ _ _ onward
        rw [SystemState.queued_media] at same
        rw [List.length_cons] at shorter
        obtain ⟨further, entries, looped, all⟩ := @inductionHypothesis (state.queued queue) memory
          next others last used aligned stands remains stops (by omega)
        refine ⟨further, pair :: entries, ?_, ?_⟩
        · rw [took, same]
          simp only [iterateLoop, kvGetCurrent, valid, if_true, Program.run_bind, ran,
            Option.bind_some, kvNext, ready.poolId, moved, looped, Program.run_pure]
          rfl
        · rw [took, same]
          exact List.Forall₂.cons read all

/-- An iteration over a pool in use takes what there is to take of the mapped ranges that
the device hands out. -/
theorem takesAll_iteratePool (ready : IterationReady store buffers poolIdBuf headerBuf)
    (iter : LogicalIterRanges) {state : SystemState ι} (memory : KvBatchIterator)
    (used : poolStatus state.store.inUse state.store.deleted poolId = .poolInUse) :
    TakesAll store thread buffers poolId state (poolRanges store state.store.media poolId)
      (iteratePool store iter poolId buffers (.ok memory)) := by
  obtain ⟨fresh, begun⟩ : ∃ fresh : PoolIterator,
      fresh = { PoolIterator.allocIter memory poolId (store.poolIdHash poolId) with
        toKvBatchIterator := (PoolIterator.allocIter memory poolId
          (store.poolIdHash poolId)).initIter store.usrData.startLba store.usrData.length
            iter.nvmMaxNumLogicalIterRanges store.poolMask } := ⟨_, rfl⟩
  have iterates : fresh.Over store poolId := by
    rw [begun]
    exact ⟨rfl, rfl, iter.positive⟩
  have ahead : fresh.rest state.store.media = poolRanges store state.store.media poolId := by
    rw [begun, PoolIterator.rest, poolRanges]
    dsimp only [PoolIterator.allocIter, KvBatchIterator.initIter]
    rw [Nat.zero_sub, List.range'_zero, List.map_nil, List.nil_append]
  have allocated : (PoolIterator.allocIter memory poolId (store.poolIdHash poolId)).validateIter.run
      (answerSystem store thread) state = some (true, state) := by
    simp only [PoolIterator.validateIter, PoolIterator.allocIter, Program.run_bind, run_liftStore,
      run_checkPoolStatus, Option.map_some, Option.bind_some, used, true_or, decide_true,
      Program.run_pure]
  have begins : ∀ outcome, (fresh.iterOverPool store (some poolIdBuf)).run
        (answerSystem store thread) state = some (outcome, state) →
      (kvBegin store iter poolId buffers (.ok memory)).run (answerSystem store thread) state =
        some (outcome.1.map fun _ => outcome.2, state) := by
    intro outcome ran
    rw [begun] at ran
    simp only [kvBegin, Program.run_bind, run_liftStore, run_kvValidatePoolId, used, true_or,
      decide_true, Option.map_some, Option.bind_some, Bool.not_true, Bool.false_eq_true, if_false,
      allocated, ready.poolId, ran]
    cases outcome.1 <;> rfl
  rw [← ahead]
  have moves := @PoolIterator.movesOn_iterOverPool ι store thread state poolId _ poolIdBuf used
    iterates
  rcases moves with
    ⟨code, after, ended, ran⟩ | ⟨range, rest, after, found, ran, there⟩
  · have nothing := @nextOfPool_error store _ poolId state.store.clock _ _ ended
    refine ⟨state.store.expiryQueue, [], ?_, ?_⟩
    · rw [nothing]
      simp only [iteratePool, Program.run_bind, begins _ ran, Option.bind_some, Except.map,
        Program.run_pure]
      rfl
    · rw [nothing]
      exact List.Forall₂.nil
  · obtain ⟨remains, stops, _, same⟩ :=
      @nextOfPool_ok store _ poolId state.store.clock _ _ _ found
    have bounded : rest.length < after.roundsLeft + 1 :=
      Nat.lt_succ_of_le (there.ahead ▸ after.rest_length_le)
    obtain ⟨queue, entries, looped, all⟩ := takesAll_iterateLoop thread ready
      (after.roundsLeft + 1) used rfl there remains stops bounded
    refine ⟨queue, entries, ?_, ?_⟩
    · rw [same]
      simp only [iteratePool, Program.run_bind, begins _ ran, Option.bind_some, Except.map,
        looped]
    · rw [same]
      exact all

end Loops

end Nvmkv
