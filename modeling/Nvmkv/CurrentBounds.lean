import Nvmkv.GetBounds
import Nvmkv.IterationEnd

/-!
# The caller's value buffer in `kv_get_current`

`kv_get_current` bounds the length that it copies by that of the caller's buffer. The vector
for the device it makes as long as the buffer rounded up to whole sectors, or as the range
when this is shorter, and it accepts a buffer that is not whole sectors, which `kv_get` does
not. So a range with a value of its own sectors is read past the end of such a buffer, unless
it ends before.

A call reads at the range of the iterator and, while what it finds there is no unexpired pair,
at the next one of the pool. All that it reads stays in the buffer, so the bytes behind the
buffer are kept exactly when none of these ranges takes them in.
-/

namespace Nvmkv

variable {ι : Type}

/-- An iterator as `kv_begin` makes it, which fetches some ranges at a time. -/
structure ClientIterator extends PoolIterator where
  portions : 0 < maxRanges

section Ranges

variable (store : NvmKvStore) (address valueLen : Nat)

/-- The lengths with which a range is read into a buffer at an address. -/
def currentReading (range : NvmBlockRange) : ReadBuffers :=
  currentBuffers store ⟨address, fun _ => 0⟩ valueLen (fun _ => 0) range

/-- The device takes the vectors with which a range is read. -/
def currentReadable (range : NvmBlockRange) : Bool :=
  (if (currentReading store address valueLen range).numIovs = 2 then 2 else 1) ≤
      store.capabilities.nvmMaxNumIovs ∧
    ((currentReading store address valueLen range).numIovs = 2 → address % store.sectorSize = 0)

/-- The device reads a byte of the caller's buffer at a range. -/
def takesIn (i : Nat) (range : NvmBlockRange) : Bool :=
  currentReadable store address valueLen range &&
    ((currentReading store address valueLen range).numIovs = 2 ∧
      i < (currentReading store address valueLen range).valueIovLen)

/-- The ranges of a list at which a call reads: those at which the iterator stops, up to the
first one that ends the call or where the iterator fails. -/
def readFrom (stops : NvmBlockRange → Option (Except Int Unit)) (ends : NvmBlockRange → Bool) :
    List NvmBlockRange → List NvmBlockRange
  | [] => []
  | range :: rest =>
      match stops range with
      | none => readFrom stops ends rest
      | some (.error _) => []
      | some (.ok ()) => range :: if ends range then [] else readFrom stops ends rest

/-- A call ends at a range that it cannot read, or where it finds an unexpired pair. -/
def endsCurrent (media : Media) (clock : Nat) (range : NvmBlockRange) : Bool :=
  !currentReadable store address valueLen range || readsAsPair store media clock range

/-- The ranges at which `kv_get_current` reads. -/
def currentRanges (media : Media) (clock : Nat) (poolIdBuf : Option Region) (it : PoolIterator) :
    List NvmBlockRange :=
  it.getIterLoc ::
    if endsCurrent store address valueLen media clock it.getIterLoc then []
    else readFrom (it.stopAt store media poolIdBuf)
      (endsCurrent store address valueLen media clock) (it.rest media)

end Ranges

/-- What `kv_get_current` delivers lies in the first bytes of the caller's buffer, whatever the
buffer held. -/
def CurrentConfined (store : NvmKvStore) (thread : ι) (state : SystemState ι)
    (buffers : IterationBuffers) (address : Nat) (it : PoolIterator) : Prop :=
  ∀ bytes result value next after,
    (kvGetCurrent store buffers ⟨address, bytes⟩ it).run (answerSystem store thread) state =
      some ((result, value, next), after) →
    ∀ i, buffers.valueLen ≤ i → value.bytes i = bytes i

/-- At no range that `kv_get_current` reads does the vector go past the caller's buffer. -/
def CurrentFits (store : NvmKvStore) (state : SystemState ι) (buffers : IterationBuffers)
    (address : Nat) (it : PoolIterator) : Prop :=
  kvValidateValue store false buffers.valueLen = true → it.Valid state →
    buffers.headerBuf.isSome = true →
    ∀ range ∈ currentRanges store address buffers.valueLen state.store.media state.store.clock
        buffers.poolIdBuf it,
      currentReadable store address buffers.valueLen range = true →
      (currentReading store address buffers.valueLen range).numIovs = 2 →
      (currentReading store address buffers.valueLen range).valueIovLen ≤ buffers.valueLen

section Bytes

variable {store : NvmKvStore} {media : Media} {address valueLen i : Nat}

/-- The device takes the vectors of a range just when the test on their lengths and addresses says
so, whatever the buffers hold. -/
theorem currentReadable_iff {range : NvmBlockRange} (bytes buf : Region) :
    currentReadable store address valueLen range = true ↔
      Readable store (currentBuffers store ⟨address, bytes⟩ valueLen buf range) := by
  rw [currentReadable, decide_eq_true_iff]
  exact ⟨fun taken => ⟨taken.1, taken.2⟩, fun readable => ⟨readable.fits, readable.aligned⟩⟩

/-- The byte of the buffer that the last of some ranges has read. -/
def takenByte (store : NvmKvStore) (media : Media) (address valueLen i : Nat) :
    List NvmBlockRange → Option UInt8
  | [] => none
  | range :: rest =>
      (takenByte store media address valueLen i rest).or
        (if takesIn store address valueLen i range then
          some (media.read store.sectorSize range.startLba (store.sectorSize + i))
        else none)

/-- None is read when no range takes the byte in. -/
theorem takenByte_eq_none {ranges : List NvmBlockRange} :
    takenByte store media address valueLen i ranges = none ↔
      ∀ range ∈ ranges, takesIn store address valueLen i range = false := by
  induction ranges with
  | nil => exact iff_of_true rfl fun _ absent => absurd absent List.not_mem_nil
  | cons range rest inductionHypothesis =>
    rw [takenByte, Option.or_eq_none_iff, inductionHypothesis, List.forall_mem_cons, and_comm]
    refine and_congr_left fun _ => ?_
    cases takesIn store address valueLen i range <;> simp

/-- What a round leaves of a byte. -/
theorem readValue_byte {range : NvmBlockRange} {value : Memory} {buf : Region}
    (readable : currentReadable store address valueLen range = true) :
    readValue store media (currentBuffers store value valueLen buf range) value.bytes
        range.startLba i =
      if takesIn store address valueLen i range then
        media.read store.sectorSize range.startLba (store.sectorSize + i)
      else value.bytes i := by
  have lengths : SameLengths (currentBuffers store value valueLen buf range)
      (currentReading store address valueLen range) := ⟨rfl, rfl⟩
  rw [readValue, takesIn, readable, Bool.true_and, lengths.numIovs, lengths.valueIovLen]
  by_cases double : (currentReading store address valueLen range).numIovs = 2
  · by_cases inside : i < (currentReading store address valueLen range).valueIovLen
    · rw [if_pos double, Region.copy_inside _ _ ⟨Nat.zero_le i, by omega⟩, Nat.sub_zero,
        Region.drop, if_pos (decide_eq_true ⟨double, inside⟩)]
    · rw [if_pos double, Region.copy_outside _ _ (.inr (by omega)),
        if_neg (by simp [inside])]
  · rw [if_neg double, if_neg (by simp [double])]

/-- The pair that is returned was copied by no more than the length of the buffer. -/
theorem currentPair_beyond (keyLoc : Nat) (buf value : Region) (beyond : valueLen ≤ i) :
    (currentPair store valueLen keyLoc buf value).value i = value i := by
  unfold currentPair
  dsimp only
  split
  · refine Region.copy_outside _ _ (.inr ?_)
    split <;> omega
  · rfl

end Bytes

namespace PoolIterator

variable {store : NvmKvStore} {media : Media} {poolIdBuf : Option Region} {it after : PoolIterator}
  {address valueLen clock : Nat}

/-- Ranges that an iterator passes over are not read. -/
theorem readFrom_passed {stops : NvmBlockRange → Option (Except Int Unit)}
    {ends : NvmBlockRange → Bool} {skipped rest : List NvmBlockRange}
    (passed : ∀ range ∈ skipped, stops range = none) :
    readFrom stops ends (skipped ++ rest) = readFrom stops ends rest := by
  induction skipped with
  | nil => rfl
  | cons range skipped inductionHypothesis =>
    rw [List.cons_append, readFrom, passed range List.mem_cons_self]
    exact inductionHypothesis fun other listed => passed other (List.mem_cons_of_mem range listed)

/-- Moving on comes to the next range that is read, or to the end of the call. -/
theorem Moved.readFrom {verdict : Except Int Unit}
    (moved : Moved store media poolIdBuf it after verdict) :
    Nvmkv.readFrom (it.stopAt store media poolIdBuf)
        (endsCurrent store address valueLen media clock) (it.rest media) =
      match verdict with
      | .error _ => []
      | .ok () => currentRanges store address valueLen media clock poolIdBuf after := by
  cases moved with
  | ended passed follows exhausted nothing =>
    rw [← List.append_nil (it.rest media), readFrom_passed passed, Nvmkv.readFrom]
  | stopped skipped verdict split passed follows stops =>
    have same : after.stopAt store media poolIdBuf = it.stopAt store media poolIdBuf := by
      funext range
      rw [stopAt, stopAt, follows.pool, follows.hash]
    rw [split, readFrom_passed passed, Nvmkv.readFrom, stops]
    cases verdict with
    | error code => rfl
    | ok _ => rw [currentRanges, same]

end PoolIterator

section Runs

variable {store : NvmKvStore} {thread : ι} {buffers : IterationBuffers} {headerBuf : Region}
  {address : Nat}

/-- How the loop of `kv_get_current` leaves the bytes behind the caller's buffer: each is the
one that was read last there, or what it was. -/
def LeavesBytes (store : NvmKvStore) (thread : ι) (state : SystemState ι)
    (buffers : IterationBuffers) (bytes : Region) (address : Nat) (ranges : List NvmBlockRange)
    (program : SystemM (Except Int CurrentPair × Memory × PoolIterator)) : Prop :=
  ∃ result value next after, program.run (answerSystem store thread) state =
      some ((result, value, next), after) ∧
    ∀ i, buffers.valueLen ≤ i → value.bytes i =
      (takenByte store state.store.media address buffers.valueLen i ranges).getD (bytes i)

/-- The range of the iterator is read before those that follow. -/
theorem LeavesBytes.before {state : SystemState ι} {queue : List (List NvmIovec)}
    {bytes left : Region} {range : NvmBlockRange} {ranges : List NvmBlockRange}
    {program other : SystemM (Except Int CurrentPair × Memory × PoolIterator)}
    (byte : ∀ i, left i = if takesIn store address buffers.valueLen i range then
      state.store.media.read store.sectorSize range.startLba (store.sectorSize + i) else bytes i)
    (leaves : LeavesBytes store thread (state.queued queue) buffers left address ranges other)
    (runs : program.run (answerSystem store thread) state =
      other.run (answerSystem store thread) (state.queued queue)) :
    LeavesBytes store thread state buffers bytes address (range :: ranges) program := by
  obtain ⟨result, value, next, after, ran, kept⟩ := leaves
  refine ⟨result, value, next, after, runs.trans ran, ?_⟩
  intro i beyond
  rw [kept i beyond, SystemState.queued_media, takenByte, byte]
  cases takenByte store state.store.media address buffers.valueLen i ranges with
  | some last => rfl
  | none =>
    cases takesIn store address buffers.valueLen i range <;> rfl

/-- Where the call goes on, it reads at the next range of the pool at which the iterator stops.
The rounds that are left are enough for the ranges ahead. -/
theorem leavesBytes_passOver {state : SystemState ι} {bytes : Region} {it : PoolIterator}
    (valid : it.Valid state) (portions : 0 < it.maxRanges) {rounds : Nat}
    (enough : (it.rest state.store.media).length < rounds + 1)
    (goesOn : ∀ after : PoolIterator, after.Valid state → 0 < after.maxRanges →
      (after.rest state.store.media).length < rounds →
      LeavesBytes store thread state buffers bytes address
        (currentRanges store address buffers.valueLen state.store.media state.store.clock
          buffers.poolIdBuf after)
        (getCurrentLoop store buffers rounds ⟨address, bytes⟩ after)) :
    LeavesBytes store thread state buffers bytes address
      (readFrom (it.stopAt store state.store.media buffers.poolIdBuf)
        (endsCurrent store address buffers.valueLen state.store.media state.store.clock)
        (it.rest state.store.media))
      (passOver store buffers ⟨address, bytes⟩ it
        (getCurrentLoop store buffers rounds ⟨address, bytes⟩)) := by
  obtain ⟨verdict, after, ran, moved⟩ := @PoolIterator.Valid.run_kvNext ι store thread state it
    valid portions buffers
  rw [kvNext] at ran
  rw [moved.readFrom]
  cases verdict with
  | error code =>
    refine ⟨.error code, ⟨address, bytes⟩, after, state, ?_, fun _ _ => rfl⟩
    simp only [passOver, Program.run_bind, ran, Option.bind_some, Program.run_pure]
  | ok _ =>
    have further : (after.rest state.store.media).length < rounds := by
      cases moved with
      | stopped skipped _ split _ _ _ =>
        rw [split, List.length_append, List.length_cons] at enough
        omega
    obtain ⟨result, value, next, last, looped, kept⟩ := goesOn after
      (valid.follows moved.follows) (portions.trans_eq moved.follows.size.symm) further
    refine ⟨result, value, next, last, ?_, kept⟩
    simp only [passOver, Program.run_bind, ran, Option.bind_some, looped]

/-- Induction is on the rounds: a round reads at the range of the iterator, and ends the call
or goes on at the next range of the pool. -/
theorem leavesBytes_getCurrentLoop (allocated : buffers.headerBuf = some headerBuf) (rounds : Nat)
    {state : SystemState ι} {bytes : Region} {it : PoolIterator} (valid : it.Valid state)
    (portions : 0 < it.maxRanges) (enough : (it.rest state.store.media).length < rounds) :
    LeavesBytes store thread state buffers bytes address
      (currentRanges store address buffers.valueLen state.store.media state.store.clock
        buffers.poolIdBuf it)
      (getCurrentLoop store buffers rounds ⟨address, bytes⟩ it) := by
  induction rounds generalizing state bytes it with
  | zero => exact absurd enough (Nat.not_lt_zero _)
  | succ rounds inductionHypothesis =>
    have accepted := @PoolIterator.Valid.run_validateIter ι store thread state it valid
    cases taken : currentReadable store address buffers.valueLen it.getIterLoc with
    | false =>
      have refused : ¬Readable store (currentBuffers store ⟨address, bytes⟩ buffers.valueLen
          headerBuf it.getIterLoc) := by
        rw [← currentReadable_iff, taken]
        exact Bool.false_ne_true
      have ends : endsCurrent store address buffers.valueLen state.store.media state.store.clock
          it.getIterLoc = true := by
        rw [endsCurrent, taken, Bool.not_false, Bool.true_or]
      refine ⟨.error (refusal store).retCode, ⟨address, bytes⟩, it, state, ?_, ?_⟩
      · simp only [getCurrentLoop, Program.run_bind, accepted, Option.bind_some, Bool.not_true,
          Bool.false_eq_true, if_false, allocated, run_liftStore, run_nvmReadv_refused refused,
          Option.map_some, Program.run_pure]
      · intro i _
        rw [currentRanges, ends, if_pos rfl, takenByte, takenByte, takesIn, taken]
        rfl
    | true =>
      have readable := (currentReadable_iff bytes headerBuf).mp taken
      obtain ⟨read, filled⟩ : ∃ read, rangeRead store state.store.media buffers.valueLen headerBuf
          it.getIterLoc ⟨address, bytes⟩ = ⟨address, read⟩ := ⟨_, rfl⟩
      have byte : ∀ i, read i =
          if takesIn store address buffers.valueLen i it.getIterLoc then
            state.store.media.read store.sectorSize it.getIterLoc.startLba (store.sectorSize + i)
          else bytes i := by
        intro i
        rw [← (Memory.mk.inj filled).2]
        exact @readValue_byte store state.store.media address buffers.valueLen i it.getIterLoc
          ⟨address, bytes⟩ headerBuf taken
      cases reads : readsAsPair store state.store.media state.store.clock it.getIterLoc with
      | false =>
        have continues : endsCurrent store address buffers.valueLen state.store.media
            state.store.clock it.getIterLoc = false := by
          rw [endsCurrent, taken, reads, Bool.not_true, Bool.or_self]
        obtain ⟨queue, runs⟩ := @run_getCurrentLoop_passes ι store thread buffers headerBuf state
          ⟨address, bytes⟩ it rounds allocated accepted readable reads
        rw [filled] at runs
        have further := @leavesBytes_passOver ι store thread buffers address (state.queued queue)
          read it valid portions rounds enough fun after stays fetching fewer =>
            inductionHypothesis stays fetching fewer
        rw [currentRanges, continues, if_neg Bool.false_ne_true]
        exact further.before byte runs
      | true =>
        have ends : endsCurrent store address buffers.valueLen state.store.media
            state.store.clock it.getIterLoc = true := by
          rw [endsCurrent, reads, Bool.or_true]
        obtain ⟨pair, made, ran⟩ := @run_getCurrentLoop_takes ι store thread buffers headerBuf
          state ⟨address, bytes⟩ it rounds allocated accepted readable reads
        rw [filled] at made
        refine ⟨.ok pair, ⟨address, pair.value⟩, it, state, ran, ?_⟩
        intro i beyond
        rw [made]
        refine (currentPair_beyond it.getIterLoc.startLba _ read beyond).trans ?_
        rw [currentRanges, ends, if_pos rfl, byte, takenByte, takenByte, Option.none_or]
        cases takesIn store address buffers.valueLen i it.getIterLoc <;> rfl

/-- A call that is refused, or gets no buffer for the header, delivers nothing. -/
theorem run_kvGetCurrent_nothing {state : SystemState ι} {bytes : Region} {it : PoolIterator}
    (nothing : ¬(kvValidateValue store false buffers.valueLen = true ∧ it.Valid state ∧
      buffers.headerBuf.isSome = true)) :
    ∃ code, (kvGetCurrent store buffers ⟨address, bytes⟩ it).run (answerSystem store thread)
      state = some ((.error code, ⟨address, bytes⟩, it), state) := by
  cases accepted : kvValidateValue store false buffers.valueLen with
  | false =>
    refine ⟨NvmErrorCode.invalidInput.retCode, ?_⟩
    rw [kvGetCurrent, accepted, if_neg Bool.false_ne_true, Program.run_pure]
  | true =>
    rw [kvGetCurrent, accepted, if_pos rfl, getCurrentLoop]
    by_cases valid : it.Valid state
    · have none : buffers.headerBuf = none := by
        rw [← Option.not_isSome_iff_eq_none]
        exact fun allocated => nothing ⟨accepted, valid, allocated⟩
      refine ⟨NvmErrorCode.outOfMemory.retCode, ?_⟩
      simp only [Program.run_bind, valid.run_validateIter, Option.bind_some,
        Bool.not_true, Bool.false_eq_true, if_false, none, Program.run_pure]
    · refine ⟨NvmErrorCode.invalidInput.retCode, ?_⟩
      simp only [Program.run_bind, PoolIterator.run_validateIter_invalid valid, Option.bind_some,
        Bool.not_false, if_true, Program.run_pure]

/-- `kv_get_current` stays within the caller's buffer exactly when no range that it reads takes
a byte behind it in. -/
theorem currentConfined_iff {state : SystemState ι} (it : ClientIterator) :
    CurrentConfined store thread state buffers address it.toPoolIterator ↔
      CurrentFits store state buffers address it.toPoolIterator := by
  obtain ⟨it, portions⟩ := it
  dsimp only
  by_cases reads : kvValidateValue store false buffers.valueLen = true ∧ it.Valid state ∧
      buffers.headerBuf.isSome = true
  · obtain ⟨accepted, valid, some⟩ := reads
    obtain ⟨headerBuf, allocated⟩ := Option.isSome_iff_exists.mp some
    have leaves : ∀ bytes, LeavesBytes store thread state buffers bytes address
        (currentRanges store address buffers.valueLen state.store.media state.store.clock
          buffers.poolIdBuf it) (kvGetCurrent store buffers ⟨address, bytes⟩ it) := by
      intro bytes
      rw [kvGetCurrent, accepted, if_pos rfl]
      exact leavesBytes_getCurrentLoop allocated _ valid portions
        (Nat.lt_succ_of_le it.rest_length_le)
    constructor
    · intro confined _ _ _ range listed readable double
      by_contra longer
      have takes : takesIn store address buffers.valueLen buffers.valueLen range = true := by
        rw [takesIn, readable, Bool.true_and, decide_eq_true_iff]
        exact ⟨double, Nat.lt_of_not_le longer⟩
      cases last : takenByte store state.store.media address buffers.valueLen buffers.valueLen
          (currentRanges store address buffers.valueLen state.store.media state.store.clock
            buffers.poolIdBuf it) with
      | none =>
        rw [takenByte_eq_none.mp last range listed] at takes
        exact Bool.noConfusion takes
      | some byte =>
        obtain ⟨other, different⟩ := exists_other_byte byte
        obtain ⟨result, value, next, after, ran, kept⟩ := leaves fun _ => other
        have same := confined _ result value next after ran buffers.valueLen (Nat.le_refl _)
        rw [kept _ (Nat.le_refl _), last] at same
        exact different same
    · intro fits bytes result value next after ran i beyond
      obtain ⟨_, _, _, _, again, kept⟩ := leaves bytes
      rw [ran, Option.some.injEq, Prod.mk.injEq, Prod.mk.injEq, Prod.mk.injEq] at again
      obtain ⟨⟨-, rfl, -⟩, -⟩ := again
      have untouched : takenByte store state.store.media address buffers.valueLen i
          (currentRanges store address buffers.valueLen state.store.media state.store.clock
            buffers.poolIdBuf it) = none := by
        rw [takenByte_eq_none]
        intro range listed
        rw [takesIn, Bool.and_eq_false_imp]
        intro readable
        refine decide_eq_false ?_
        rintro ⟨double, inside⟩
        have bounded := fits accepted valid some range listed readable double
        omega
      rw [kept i beyond, untouched]
      rfl
  · refine iff_of_true ?_ fun accepted valid allocated =>
      absurd ⟨accepted, valid, allocated⟩ reads
    intro bytes result value next after ran i _
    obtain ⟨code, nothing⟩ := @run_kvGetCurrent_nothing ι store thread buffers address state bytes
      it reads
    rw [ran, Option.some.injEq, Prod.mk.injEq, Prod.mk.injEq, Prod.mk.injEq] at nothing
    obtain ⟨⟨-, rfl, -⟩, -⟩ := nothing
    rfl

end Runs

/-- The three calls that deliver values stay within the caller's buffers exactly when, for
`kv_get` and the pairs of `kv_batch_get`, the header found states no more bytes behind it than
the buffer holds, and for `kv_get_current`, no range that it reads takes in sectors past the
end of the buffer. -/
theorem value_buffers_kept_iff (store : NvmKvStore) (thread : ι) :
    (∀ (state : StoreState ι) (poolId : UInt32) (key : List UInt8) (address valueLen : Nat)
        (readExact : Bool) (buf : Option Region),
      GetConfined store thread state poolId key address valueLen readExact buf ↔
        GetFits store state poolId key address valueLen readExact buf) ∧
    (∀ (state : StoreState ι) (poolId : UInt32) (kvIov : List (NvmKvIovec × Option Region)),
      BatchGetConfined store thread state poolId kvIov ↔ BatchGetFits store state poolId kvIov) ∧
    (∀ (state : SystemState ι) (buffers : IterationBuffers) (address : Nat) (it : ClientIterator),
      CurrentConfined store thread state buffers address it.toPoolIterator ↔
        CurrentFits store state buffers address it.toPoolIterator) :=
  ⟨fun _ _ _ _ _ _ _ => getConfined_iff, fun _ _ _ => batchGetConfined_iff,
    fun _ _ _ it => currentConfined_iff it⟩

/-- An iterator at a pair whose value has a sector of its own. -/
def atLongPair : ClientIterator where
  toKvBatchIterator :=
    { iteratorMemory with
      numRangesFound := 1
      maxRanges := 1
      ranges := fun _ => ⟨nextLba, 2⟩ }
  poolId := 0
  portions := Nat.one_pos

/-- What the three calls deliver lies in the caller's buffers, for every store state and every
length that they accept. -/
structure ValueBuffersKept (store : NvmKvStore) (thread : ι) : Prop where
  get : ∀ (state : StoreState ι) (poolId : UInt32) (key : List UInt8) (address valueLen : Nat)
    (readExact : Bool) (buf : Option Region),
    GetConfined store thread state poolId key address valueLen readExact buf
  batchGet : ∀ (state : StoreState ι) (poolId : UInt32)
    (kvIov : List (NvmKvIovec × Option Region)), BatchGetConfined store thread state poolId kvIov
  getCurrent : ∀ (state : SystemState ι) (buffers : IterationBuffers) (address : Nat)
    (it : ClientIterator), CurrentConfined store thread state buffers address it.toPoolIterator

/-- They do not: `kv_get_current` reads a whole sector into a buffer of 100 bytes. -/
theorem value_buffer_overrun : ¬∀ store : NvmKvStore, ValueBuffersKept store () := by
  intro kept
  have confined := (kept NvmKvStore.terabyteStore).getCurrent
    { copiesState false with store := collidingState } { sectorBuffers with valueLen := 100 } 0
    atLongPair
  have fits := (currentConfined_iff atLongPair).mp confined (by decide) (Or.inl rfl) rfl
    ⟨nextLba, 2⟩ List.mem_cons_self
  exact absurd (fits (by decide) (by decide)) (by decide)

end Nvmkv
