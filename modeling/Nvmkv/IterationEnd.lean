import Nvmkv.IterationExact

/-!
# After the end of an iteration

At the end of the data `iterate` sets the position back to the front of the buffer and
leaves the number of ranges found as it was. What lies in the buffer is the last portion
that the device returned, so the next call goes on with its second range, as if the
portion had just been fetched. The end is stable exactly when none of the ranges behind
the first one stops the iterator.

The iterator, its buffer and the store are arbitrary here, and so is the pool: one pool or
all of them. The code for the end may also come from a header, whose pool id is taken for
an error. The proofs follow a call over the ranges ahead, by induction on the rounds of
its loop, and further calls by induction on the ranges that are left ahead.
-/

namespace Nvmkv

variable {ι : Type} {store : NvmKvStore} {thread : ι} {state : SystemState ι} {media : Media}

namespace PoolIterator

variable {buf : Option Region} {it next after : PoolIterator}

/-- An iterator does not stop at a range with anything but the code for the end. -/
def Quiet (store : NvmKvStore) (media : Media) (buf : Option Region) (it : PoolIterator)
    (range : NvmBlockRange) : Prop :=
  ∀ verdict, it.stopAt store media buf range = some verdict →
    verdict = .error NvmErrorCode.objectNotFound.retCode

/-- Nothing but the end lies ahead of an iterator: not in its buffer, not on the device and,
when the device has nothing left for it, not in the portion that it goes over again. -/
structure Settled (store : NvmKvStore) (media : Media) (buf : Option Region)
    (it : PoolIterator) : Prop where
  ahead : ∀ range ∈ it.rest media, Quiet store media buf it range
  again : it.unfetched media = [] → ∀ range ∈ it.portion, Quiet store media buf it range

/-- Moving on in two steps. -/
theorem Follows.trans (first : Follows media it next) (second : Follows media next after)
    (ahead : ∀ range ∈ next.rest media, range ∈ it.rest media) : Follows media it after := by
  refine ⟨second.pool.trans first.pool, second.hash.trans first.hash,
    second.size.trans first.size, ?_, ?_⟩
  · intro none
    obtain ⟨nextNone, nextSame⟩ := first.kept none
    obtain ⟨afterNone, afterSame⟩ := second.kept nextNone
    exact ⟨afterNone, afterSame.trans nextSame⟩
  · intro some none range listed
    by_cases left : next.unfetched media = []
    · rw [(second.kept left).2] at listed
      exact first.fetched some left range listed
    · exact ahead range (second.fetched left none range listed)

/-- What stops an iterator is decided by its pool. -/
theorem Follows.quiet_iff (moved : Follows media it after) {range : NvmBlockRange} :
    Quiet store media buf after range ↔ Quiet store media buf it range := by
  have same : after.stopAt store media buf range = it.stopAt store media buf range := by
    rw [stopAt, stopAt, moved.pool, moved.hash]
  rw [Quiet, Quiet, same]

/-- With nothing but the end ahead, there is nothing else in the portion of an iterator that
has moved on for the last time. -/
theorem Settled.portion_quiet (settled : Settled store media buf it)
    (moved : Follows media it after) (none : after.unfetched media = []) :
    ∀ range ∈ after.portion, Quiet store media buf after range := by
  intro range listed
  rw [moved.quiet_iff]
  by_cases left : it.unfetched media = []
  · rw [(moved.kept left).2] at listed
    exact settled.again left range listed
  · exact settled.ahead range (moved.fetched left none range listed)

/-- An empty range has no mapped ranges in it. -/
theorem logicalRanges_empty (start : Nat) : media.logicalRanges ⟨start, 0⟩ = [] := by
  simp [Media.logicalRanges]

/-- An iterator at its end has nothing left to fetch. -/
theorem ended_unfetched : it.ended.unfetched media = [] := by
  rw [unfetched, ended, logicalRanges_empty, List.filter_nil]

/-- At the end an iterator keeps its portion. -/
theorem ended_follows (nothing : it.unfetched media = []) : Follows media it it.ended :=
  ⟨rfl, rfl, rfl, fun _ => ⟨ended_unfetched, rfl⟩, fun some => absurd nothing some⟩

/-- Where nothing is unfetched, an iterator at the front of its buffer has its portion
ahead. -/
theorem rest_eq_portion (front : it.pos = 0) (nothing : it.unfetched media = []) :
    it.rest media = it.portion := by
  rw [unfetched] at nothing
  rw [rest, nothing, List.append_nil, front, portion]

/-- How a call goes over the ranges ahead: it comes to the end, or it stops at one of
them. -/
inductive Moved (store : NvmKvStore) (media : Media) (buf : Option Region)
    (it after : PoolIterator) : Except Int Unit → Prop
  | ended (passed : ∀ range ∈ it.rest media, it.stopAt store media buf range = none)
      (follows : Follows media it after) (exhausted : after.rest media = after.portion)
      (nothing : after.unfetched media = []) :
      Moved store media buf it after (.error NvmErrorCode.objectNotFound.retCode)
  | stopped (skipped : List NvmBlockRange) (verdict : Except Int Unit)
      (split : it.rest media = skipped ++ after.getIterLoc :: after.rest media)
      (passed : ∀ range ∈ skipped, it.stopAt store media buf range = none)
      (follows : Follows media it after)
      (stops : it.stopAt store media buf after.getIterLoc = some verdict) :
      Moved store media buf it after verdict

/-- A move along the ranges leaves an iterator that follows the media. -/
theorem Moved.follows {verdict : Except Int Unit}
    (moved : Moved store media buf it after verdict) : Follows media it after := by
  cases moved with
  | ended passed follows exhausted nothing => exact follows
  | stopped skipped _ split passed follows stops => exact follows

/-- Whether an iterator is valid. -/
def Valid (state : SystemState ι) (it : PoolIterator) : Prop :=
  poolStatus state.store.inUse state.store.deleted it.poolId = .poolInUse ∨
    it.poolId = poolIdAll

/-- An iterator is valid when its pool is in use or it is over all pools. -/
theorem run_validateIter (thread : ι) (state : SystemState ι) (it : PoolIterator) :
    it.validateIter.run (answerSystem store thread) state =
      some (decide (poolStatus state.store.inUse state.store.deleted it.poolId = .poolInUse ∨
        it.poolId = poolIdAll), state) := by
  simp only [validateIter, Program.run_bind, run_liftStore, run_checkPoolStatus,
    Option.map_some, Option.bind_some, Program.run_pure]

/-- The validation of a valid iterator passes. -/
theorem Valid.run_validateIter (valid : it.Valid state) :
    it.validateIter.run (answerSystem store thread) state = some (true, state) := by
  rw [PoolIterator.run_validateIter]
  exact congrArg (fun verdict => some (verdict, state)) (decide_eq_true valid)

/-- That of any other does not. -/
theorem run_validateIter_invalid (invalid : ¬it.Valid state) :
    it.validateIter.run (answerSystem store thread) state = some (false, state) := by
  rw [run_validateIter]
  exact congrArg (fun verdict => some (verdict, state)) (decide_eq_false invalid)

/-- A valid iterator is moved on. -/
theorem Valid.run_iterate (valid : it.Valid state) :
    it.iterate.run (answerSystem store thread) state =
      it.moveOn.run (answerSystem store thread) state := by
  simp only [iterate, Program.run_bind, valid.run_validateIter, Option.bind_some,
    Bool.not_true, Bool.false_eq_true, if_false]

/-- It stays so when it moves on, since its pool is the same. -/
theorem Valid.follows (valid : it.Valid state) (moved : Follows media it after) :
    after.Valid state := by
  rw [Valid, moved.pool]
  exact valid

/-- Induction is on the rounds: each takes the first of the ranges ahead. -/
theorem Valid.run_loop (valid : it.Valid state) (portions : 0 < it.maxRanges) (rounds : Nat)
    (enough : (it.rest state.store.media).length < rounds) :
    ∃ verdict after, (it.iterOverPoolLoop store buf rounds).run (answerSystem store thread) state =
        some ((verdict, after), state) ∧
      Moved store state.store.media buf it after verdict := by
  induction rounds generalizing it with
  | zero => exact absurd enough (Nat.not_lt_zero _)
  | succ rounds inductionHypothesis =>
    cases ahead : it.rest state.store.media with
    | nil =>
      have nothing : it.unfetched state.store.media = [] := (List.append_eq_nil_iff.mp ahead).2
      have ran := @run_moveOn_end ι store thread state it ahead
      rw [← valid.run_iterate] at ran
      refine ⟨_, it.ended, run_loop_error thread ran, .ended ?_ (ended_follows nothing)
        (rest_eq_portion rfl ended_unfetched) ended_unfetched⟩
      rw [ahead]
      exact fun range absent => absurd absent List.not_mem_nil
    | cons range ranges =>
      obtain ⟨next, ran, follows, here, left⟩ :=
        @run_moveOn_next ι store thread state it portions range ranges ahead
      rw [← valid.run_iterate] at ran
      have same : ∀ other, next.stopAt store state.store.media buf other =
          it.stopAt store state.store.media buf other := by
        intro other
        rw [stopAt, stopAt, follows.pool, follows.hash]
      rw [run_loop_ok thread ran, here, same]
      cases stops : it.stopAt store state.store.media buf range with
      | some verdict =>
        refine ⟨verdict, next, rfl, .stopped [] verdict ?_ ?_ follows (here ▸ stops)⟩
        · rw [ahead, here, left, List.nil_append]
        · exact fun other absent => absurd absent List.not_mem_nil
      | none =>
        rw [ahead, List.length_cons, Nat.succ_lt_succ_iff, ← left] at enough
        obtain ⟨verdict, after, looped, moved⟩ := inductionHypothesis (valid.follows follows)
          (portions.trans_eq follows.size.symm) enough
        have shorter : ∀ other ∈ next.rest state.store.media,
            other ∈ it.rest state.store.media := by
          intro other listed
          rw [left] at listed
          rw [ahead]
          exact List.mem_cons_of_mem range listed
        refine ⟨verdict, after, looped, ?_⟩
        cases moved with
        | ended passed further exhausted nothing =>
          refine .ended ?_ (follows.trans further shorter) exhausted nothing
          rw [ahead]
          rintro other (_ | ⟨_, listed⟩)
          · exact stops
          · rw [← same]
            exact passed other (left ▸ listed)
        | stopped skipped _ split passed further ends =>
          refine .stopped (range :: skipped) verdict ?_ ?_ (follows.trans further shorter)
            ((same _).symm.trans ends)
          · rw [ahead, ← left, split, List.cons_append]
          · rintro other (_ | ⟨_, listed⟩)
            · exact stops
            · exact (same other).symm.trans (passed other listed)

/-- The same of `kv_next`. -/
theorem Valid.run_kvNext (valid : it.Valid state) (portions : 0 < it.maxRanges)
    (buffers : IterationBuffers) :
    ∃ verdict after, (kvNext store buffers it).run (answerSystem store thread) state =
        some ((verdict, after), state) ∧
      Moved store state.store.media buffers.poolIdBuf it after verdict := by
  obtain ⟨verdict, after, looped, moved⟩ := @Valid.run_loop ι store thread state
    buffers.poolIdBuf it valid portions (it.roundsLeft + 1) (Nat.lt_succ_of_le it.rest_length_le)
  refine ⟨verdict, after, ?_, moved⟩
  simp only [kvNext, iterOverPool, Program.run_bind, valid.run_validateIter,
    Option.bind_some, Bool.not_true, Bool.false_eq_true, if_false]
  exact looped

/-- A call that reports the end found its iterator valid. -/
theorem valid_of_kvNext {buffers : IterationBuffers} {reached : SystemState ι}
    (ran : (kvNext store buffers it).run (answerSystem store thread) state =
      some ((.error NvmErrorCode.objectNotFound.retCode, after), reached)) :
    it.Valid state := by
  by_contra invalid
  simp only [kvNext, iterOverPool, Program.run_bind, run_validateIter_invalid invalid,
    Option.bind_some, Bool.not_false, if_true, Program.run_pure, Option.some.injEq,
    Prod.mk.injEq, Except.error.injEq] at ran
  exact absurd ran.1.1 (by decide)

/-- Where nothing but the end lies ahead, a call reports the end and leaves it so. -/
theorem Settled.moved {verdict : Except Int Unit} (settled : Settled store media buf it)
    (moved : Moved store media buf it after verdict) :
    verdict = .error NvmErrorCode.objectNotFound.retCode ∧ Settled store media buf after := by
  cases moved with
  | ended passed follows exhausted nothing =>
    have portion := settled.portion_quiet follows nothing
    exact ⟨rfl, exhausted ▸ portion, fun _ => portion⟩
  | stopped skipped _ split passed follows stops =>
    have ahead : ∀ range ∈ after.getIterLoc :: after.rest media,
        Quiet store media buf it range := by
      intro range listed
      refine settled.ahead range ?_
      rw [split]
      exact List.mem_append_right skipped listed
    refine ⟨ahead _ List.mem_cons_self verdict stops, ?_, settled.portion_quiet follows⟩
    intro range listed
    rw [follows.quiet_iff]
    exact ahead range (List.mem_cons_of_mem _ listed)

end PoolIterator

/-- Calls of `kv_next` one after another, with the result of each. -/
def kvNextTimes (store : NvmKvStore) (buffers : IterationBuffers) :
    (times : Nat) → PoolIterator → SystemM (List (Except Int Unit))
  | 0, _ => pure []
  | times + 1, it => do
      let (moved, it) ← kvNext store buffers it
      let others ← kvNextTimes store buffers times it
      pure (moved :: others)

/-- However often `kv_next` is called, it reports the end. -/
def StaysEnded (store : NvmKvStore) (buffers : IterationBuffers) (thread : ι)
    (state : SystemState ι) (it : PoolIterator) : Prop :=
  ∀ times, (kvNextTimes store buffers times it).run (answerSystem store thread) state =
    some (List.replicate times (.error NvmErrorCode.objectNotFound.retCode), state)

namespace StaysEnded

open PoolIterator

variable {buffers : IterationBuffers} {it after : PoolIterator} {verdict : Except Int Unit}

/-- The first call and those behind it. -/
theorem iff_next (ran : (kvNext store buffers it).run (answerSystem store thread) state =
      some ((verdict, after), state)) :
    StaysEnded store buffers thread state it ↔
      verdict = .error NvmErrorCode.objectNotFound.retCode ∧
        StaysEnded store buffers thread state after := by
  have step : ∀ times, (kvNextTimes store buffers (times + 1) it).run
      (answerSystem store thread) state =
        ((kvNextTimes store buffers times after).run (answerSystem store thread) state).map
          fun others => (verdict :: others.1, others.2) := by
    intro times
    simp only [kvNextTimes, Program.run_bind, ran, Option.bind_some, Program.run_pure]
    cases (kvNextTimes store buffers times after).run (answerSystem store thread) state <;> rfl
  constructor
  · intro stays
    have further : ∀ times, verdict = .error NvmErrorCode.objectNotFound.retCode ∧
        (kvNextTimes store buffers times after).run (answerSystem store thread) state =
          some (List.replicate times (.error NvmErrorCode.objectNotFound.retCode), state) := by
      intro times
      have all := stays (times + 1)
      rw [step, Option.map_eq_some_iff] at all
      obtain ⟨⟨others, last⟩, called, same⟩ := all
      rw [List.replicate_succ, Prod.mk.injEq, List.cons.injEq] at same
      obtain ⟨⟨first, rest⟩, unchanged⟩ := same
      dsimp only at rest unchanged
      rw [rest, unchanged] at called
      exact ⟨first, called⟩
    exact ⟨(further 0).1, fun times => (further times).2⟩
  · rintro ⟨first, stays⟩ times
    cases times with
    | zero => rfl
    | succ times =>
      rw [step, stays times, first]
      rfl

/-- Where nothing but the end lies ahead, every call reports it. -/
theorem of_settled (valid : it.Valid state) (portions : 0 < it.maxRanges)
    (settled : Settled store state.store.media buffers.poolIdBuf it) :
    StaysEnded store buffers thread state it := by
  intro times
  induction times generalizing it with
  | zero => rfl
  | succ times inductionHypothesis =>
    obtain ⟨verdict, next, ran, moved⟩ :=
      @Valid.run_kvNext ι store thread state it valid portions buffers
    obtain ⟨ends, kept⟩ := settled.moved moved
    have follows := moved.follows
    have others := inductionHypothesis (valid.follows follows)
      (portions.trans_eq follows.size.symm) kept
    simp only [kvNextTimes, Program.run_bind, ran, others, Option.bind_some, Program.run_pure, ends]
    rfl

/-- Calls that report the end go over the ranges ahead, and then over the last portion. The
induction is on the number of ranges ahead, which each call that stops at one makes
smaller. -/
theorem comes_to_portion (valid : it.Valid state) (portions : 0 < it.maxRanges)
    (stays : StaysEnded store buffers thread state it) :
    (∀ range ∈ it.rest state.store.media,
        Quiet store state.store.media buffers.poolIdBuf it range) ∧
      ∃ last, StaysEnded store buffers thread state last ∧
        Follows state.store.media it last ∧
        last.rest state.store.media = last.portion := by
  induction count : (it.rest state.store.media).length using Nat.strong_induction_on
    generalizing it with
  | _ total inductionHypothesis =>
    obtain ⟨verdict, next, ran, moved⟩ :=
      @Valid.run_kvNext ι store thread state it valid portions buffers
    obtain ⟨ends, further⟩ := (iff_next ran).mp stays
    cases moved with
    | ended passed follows exhausted nothing =>
      refine ⟨?_, next, further, follows, exhausted⟩
      intro range listed verdict stops
      rw [passed range listed] at stops
      exact nomatch stops
    | stopped skipped _ split passed follows stops =>
      have fewer : (next.rest state.store.media).length < total := by
        rw [← count, split, List.length_append, List.length_cons]
        omega
      obtain ⟨quiet, last, lastStays, lastFollows, exhausted⟩ := inductionHypothesis _ fewer
        (valid.follows follows) (portions.trans_eq follows.size.symm) further rfl
      refine ⟨?_, last, lastStays, follows.trans lastFollows ?_, exhausted⟩
      · intro range listed
        rw [split, List.mem_append, List.mem_cons] at listed
        rcases listed with before | rfl | behind
        · intro verdict stops
          rw [passed range before] at stops
          exact nomatch stops
        · intro found stopsHere
          rw [stops] at stopsHere
          exact (Option.some.inj stopsHere).symm.trans ends
        · exact follows.quiet_iff.mp (quiet range behind)
      · intro range listed
        rw [split]
        exact List.mem_append_right skipped (List.mem_cons_of_mem _ listed)

/-- Every call reports the end exactly when nothing else lies ahead. -/
theorem iff_settled (valid : it.Valid state) (portions : 0 < it.maxRanges) :
    StaysEnded store buffers thread state it ↔
      Settled store state.store.media buffers.poolIdBuf it := by
  refine ⟨?_, of_settled valid portions⟩
  intro stays
  obtain ⟨quiet, last, lastStays, lastFollows, exhausted⟩ := comes_to_portion valid portions stays
  refine ⟨quiet, ?_⟩
  intro nothing range listed
  have lastQuiet := (comes_to_portion (valid.follows lastFollows)
    (portions.trans_eq lastFollows.size.symm) lastStays).1
  rw [exhausted, (lastFollows.kept nothing).2] at lastQuiet
  exact lastFollows.quiet_iff.mp (lastQuiet range listed)

end StaysEnded

section TwoPairs

open PoolIterator

/-- An iterator over the default pool whose last portion had the first two pairs of the
store, or the first one alone. It has come to the last of them. -/
def lastPair (found : Nat) : PoolIterator where
  toKvBatchIterator := { iteratorMemory with
    poolHash := NvmKvStore.terabyteStore.poolIdHash 0
    numRangesFound := found
    pos := found - 1
    maxRanges := 3
    ranges := fun i => if i = 0 then ⟨sharedLba, 1⟩ else ⟨nextLba, 1⟩ }
  poolId := 0

/-- The iterator of the example has nothing left to fetch. -/
theorem lastPair_unfetched (found : Nat) : (lastPair found).unfetched media = [] := by
  have empty : (lastPair found).rangeToIterate = ⟨0, 0⟩ := rfl
  rw [unfetched, empty, logicalRanges_empty, List.filter_nil]

/-- Nor has it a range ahead. -/
theorem lastPair_rest (found : Nat) : (lastPair found).rest media = [] := by
  have buffered : (lastPair found).numRangesFound - ((lastPair found).pos + 1) = 0 := by
    change found - (found - 1 + 1) = 0
    omega
  have fetched := @lastPair_unfetched media found
  rw [unfetched] at fetched
  rw [rest, buffered, fetched, List.range'_zero, List.map_nil, List.append_nil]

/-- The iterator comes to the end with the next call. -/
theorem lastPair_ends (found : Nat) : ∃ after,
    (kvNext NvmKvStore.terabyteStore sectorBuffers (lastPair found)).run
        (answerSystem NvmKvStore.terabyteStore ()) (copiesState true) =
      some ((.error NvmErrorCode.objectNotFound.retCode, after), copiesState true) ∧
      Follows (copiesMedia true) (lastPair found) after ∧
      after.rest (copiesMedia true) = (lastPair found).portion := by
  have valid : (lastPair found).Valid (copiesState true) := Or.inl copiesState_used
  obtain ⟨verdict, after, ran, moved⟩ := @Valid.run_kvNext Unit NvmKvStore.terabyteStore ()
    (copiesState true) (lastPair found) valid (Nat.succ_pos 2) sectorBuffers
  have media : (copiesState true).store.media = copiesMedia true := rfl
  rw [media] at moved
  cases moved with
  | ended passed follows exhausted nothing =>
    exact ⟨after, ran, follows,
      exhausted.trans (follows.kept (lastPair_unfetched found)).2⟩
  | stopped skipped _ split passed follows stops =>
    rw [lastPair_rest] at split
    exact absurd split.symm (List.append_ne_nil_of_right_ne_nil _ (List.cons_ne_nil _ _))

end TwoPairs

/-- Once `kv_next` on an iterator has returned the code for the end, and while the store does
not change, it returns that code however often it is called, exactly when nothing but the
end lies ahead of the iterator. At the end of the data this is so when none of the ranges
behind the first one of the last portion stops the iterator. -/
theorem end_stable_iff (store : NvmKvStore) (buffers : IterationBuffers) (thread : ι)
    (state reached : SystemState ι) (it after : PoolIterator) (portions : 0 < it.maxRanges)
    (ended : (kvNext store buffers it).run (answerSystem store thread) state =
      some ((.error NvmErrorCode.objectNotFound.retCode, after), reached)) :
    StaysEnded store buffers thread reached after ↔
      PoolIterator.Settled store reached.store.media buffers.poolIdBuf after := by
  have valid := PoolIterator.valid_of_kvNext ended
  obtain ⟨verdict, next, ran, moved⟩ :=
    @PoolIterator.Valid.run_kvNext ι store thread state it valid portions buffers
  rw [ended, Option.some.injEq, Prod.mk.injEq, Prod.mk.injEq] at ran
  obtain ⟨⟨rfl, rfl⟩, rfl⟩ := ran
  have follows := moved.follows
  exact StaysEnded.iff_settled (valid.follows follows) (portions.trans_eq follows.size.symm)

/-- The end is stable behind a portion of one pair. -/
theorem end_stable_one : ∃ after,
    (kvNext NvmKvStore.terabyteStore sectorBuffers (lastPair 1)).run
        (answerSystem NvmKvStore.terabyteStore ()) (copiesState true) =
      some ((.error NvmErrorCode.objectNotFound.retCode, after), copiesState true) ∧
    StaysEnded NvmKvStore.terabyteStore sectorBuffers () (copiesState true) after := by
  obtain ⟨after, ended, follows, ahead⟩ := lastPair_ends 1
  have single : (lastPair 1).portion = [] := rfl
  have kept := (follows.kept (lastPair_unfetched 1)).2
  rw [single] at ahead kept
  refine ⟨after, ended, (end_stable_iff NvmKvStore.terabyteStore sectorBuffers () (copiesState true)
    (copiesState true) (lastPair 1) after (Nat.succ_pos 2) ended).mpr ⟨?_, fun _ => ?_⟩⟩
  · intro range listed
    exact absurd (ahead ▸ listed) List.not_mem_nil
  · rw [kept]
    exact fun range absent => absurd absent List.not_mem_nil

/-- Behind a portion of two pairs it is not: `kv_next` returns the second pair again after
the end. -/
theorem second_pair_again :
    ¬∀ (store : NvmKvStore) (buffers : IterationBuffers) (state reached : SystemState Unit)
      (it after : PoolIterator), 0 < it.maxRanges →
      (kvNext store buffers it).run (answerSystem store ()) state =
        some ((.error NvmErrorCode.objectNotFound.retCode, after), reached) →
      StaysEnded store buffers () reached after := by
  intro stable
  obtain ⟨after, ended, follows, ahead⟩ := lastPair_ends 2
  have stays := stable NvmKvStore.terabyteStore sectorBuffers (copiesState true)
    (copiesState true) (lastPair 2) after (Nat.succ_pos 2) ended
  have valid : after.Valid (copiesState true) :=
    PoolIterator.Valid.follows (Or.inl copiesState_used) follows
  have settled := (StaysEnded.iff_settled valid (follows.size ▸ Nat.succ_pos 2)).mp stays
  have quiet := follows.quiet_iff.mp (settled.ahead ⟨nextLba, 1⟩ (ahead ▸ List.mem_cons_self))
  have shares : (lastPair 2).poolHash = (⟨nextLba, 1⟩ : NvmBlockRange).startLba &&&
      NvmKvStore.terabyteStore.poolMask := by decide +kernel
  have few : NvmKvStore.terabyteStore.maxPools ≤ 2 ^ NvmKvStore.terabyteStore.poolBits := by
    decide +kernel
  have stops := quiet (.ok ()) (by
    rw [PoolIterator.stopAt, if_pos (Or.inl shares), if_pos few])
  cases stops

end Nvmkv
