import Nvmkv.BatchCalls
import Nvmkv.SearchingCalls

/-!
# A batch put on a device that may fail

The operations of the device are numbered in the order in which they are made, and an
outcome says for each number whether the operation works. One that fails answers so and
leaves the media as they were; in particular a batch is written as a whole or not at all.

What a batch put prepares only reads the device. Its vectors are handed over behind that,
trims and writes together when there is room for all of them. The number of trims has
then grown by that of the writes and is compared once more with them, so that the writes
may be handed over a second time. This happens just when twice the writes and the trims
exceed the vectors of a batch (`putsAtOnce_iff`).
-/

namespace Nvmkv

variable {ι : Type} {store : NvmKvStore} {thread : ι}

/-- What a failing operation of the device answers; the other calls do not fail. -/
def StoreOp.failure : (op : StoreOp) → Option (StoreRes op)
  | .rangeExists _ => some none
  | .readv _ => some none
  | .batchAtomic _ => some false
  | _ => none

/-- The batch that a call hands to the device. -/
def StoreOp.batch : StoreOp → List (List NvmIovec)
  | .batchAtomic iovec => [iovec]
  | _ => []

/-- A store whose device may fail: the operations made so far and the batches handed over,
whether they were written or not. -/
structure DeviceRun (ι : Type) where
  store : StoreState ι
  operations : Nat
  issued : List (List NvmIovec)

/-- Answer one call, where `outcome` says which operations of the device work. -/
def answerWith (store : NvmKvStore) (thread : ι) (outcome : Nat → Bool) :
    Program.Handler StoreOp StoreRes (DeviceRun ι) := fun op run =>
  match op.failure with
  | none => (answer store thread op run.store).map fun answered =>
      (answered.1, { run with store := answered.2 })
  | some failure =>
      let after := { run with
        operations := run.operations + 1
        issued := run.issued ++ op.batch }
      if outcome run.operations then
        (answer store thread op run.store).map fun answered =>
          (answered.1, { after with store := answered.2 })
      else
        some (failure, after)

section Device

variable {outcome other : Nat → Bool}

/-- What a call does: one that does not touch the device, an operation that works, and one
that fails. -/
theorem answerWith_cases {op : StoreOp} {run after : DeviceRun ι} {answered : StoreRes op}
    (reply : answerWith store thread outcome op run = some (answered, after)) :
    (op.failure = none ∧ ∃ reached, answer store thread op run.store = some (answered, reached) ∧
      after = { run with store := reached }) ∨
    (op.failure.isSome ∧ outcome run.operations = true ∧
      ∃ reached, answer store thread op run.store = some (answered, reached) ∧
        after = ⟨reached, run.operations + 1, run.issued ++ op.batch⟩) ∨
    (op.failure = some answered ∧ outcome run.operations = false ∧
      after = ⟨run.store, run.operations + 1, run.issued ++ op.batch⟩) := by
  unfold answerWith at reply
  cases failed : op.failure with
  | none =>
    simp only [failed] at reply
    obtain ⟨inner, given, same⟩ := Option.map_eq_some_iff.mp reply
    obtain ⟨rfl, rfl⟩ := Prod.mk.inj same
    exact .inl ⟨rfl, _, given, rfl⟩
  | some failure =>
    simp only [failed] at reply
    cases works : outcome run.operations with
    | true =>
      rw [works, if_pos rfl] at reply
      obtain ⟨inner, given, same⟩ := Option.map_eq_some_iff.mp reply
      obtain ⟨rfl, rfl⟩ := Prod.mk.inj same
      exact .inr (.inl ⟨rfl, rfl, _, given, rfl⟩)
    | false =>
      rw [works, if_neg Bool.false_ne_true] at reply
      obtain ⟨rfl, rfl⟩ := Prod.mk.inj (Option.some.inj reply)
      exact .inr (.inr ⟨rfl, rfl, rfl⟩)

/-- Operations are counted upwards. -/
theorem answerWith_operations {op : StoreOp} {run after : DeviceRun ι} {answered : StoreRes op}
    (reply : answerWith store thread outcome op run = some (answered, after)) :
    run.operations ≤ after.operations := by
  rcases answerWith_cases reply with ⟨-, reached, -, rfl⟩ | ⟨-, -, reached, -, rfl⟩ | ⟨-, -, rfl⟩
  · exact le_rfl
  · exact Nat.le_succ _
  · exact Nat.le_succ _

/-- A call does not depend on the outcomes of operations after it. -/
theorem answerWith_agree {op : StoreOp} {run after : DeviceRun ι} {answered : StoreRes op}
    (reply : answerWith store thread outcome op run = some (answered, after))
    (agree : ∀ k, k < after.operations → other k = outcome k) :
    answerWith store thread other op run = some (answered, after) := by
  rw [← reply]
  unfold answerWith
  cases failed : op.failure with
  | none => rfl
  | some failure =>
    have later : run.operations < after.operations := by
      rcases answerWith_cases reply with ⟨none, -⟩ | ⟨-, -, reached, -, rfl⟩ | ⟨-, -, rfl⟩
      · rw [failed] at none
        exact nomatch none
      · exact Nat.lt_succ_self _
      · exact Nat.lt_succ_self _
    simp only [agree _ later]

/-- A run depends on the outcomes of the operations that it makes and on no others.
Induction follows the calls. -/
theorem run_agree {α : Type} {program : StoreM α} {run after : DeviceRun ι} {result : α}
    (ran : program.run (answerWith store thread outcome) run = some (result, after))
    (agree : ∀ k, k < after.operations → other k = outcome k) :
    run.operations ≤ after.operations ∧
      program.run (answerWith store thread other) run = some (result, after) := by
  induction program generalizing run with
  | done result =>
    obtain ⟨rfl, rfl⟩ := Prod.mk.inj (Option.some.inj ran)
    exact ⟨le_rfl, rfl⟩
  | call op next inductionHypothesis =>
    rw [Program.run_call] at ran
    obtain ⟨⟨answered, between⟩, reply, further⟩ := Option.bind_eq_some_iff.mp ran
    obtain ⟨counted, rest⟩ := inductionHypothesis answered further
    have first := answerWith_agree reply fun k before => agree k (before.trans_le counted)
    refine ⟨(answerWith_operations reply).trans counted, ?_⟩
    rw [Program.run_call, first]
    exact rest

/-- A searching call hands over nothing and changes the safe list at most, whether it works
or not. -/
theorem answerWith_searches {op : StoreOp} (searches : op.Searches) {run after : DeviceRun ι}
    {answered : StoreRes op}
    (reply : answerWith store thread outcome op run = some (answered, after)) :
    after.issued = run.issued ∧
      after.store = { run.store with safeLbaList := after.store.safeLbaList } := by
  have batch : op.batch = [] := by
    cases op with
    | batchAtomic iovec => exact searches.elim False.elim False.elim
    | _ => rfl
  rcases answerWith_cases reply with ⟨-, reached, given, rfl⟩ | ⟨-, -, reached, given, rfl⟩ |
    ⟨-, -, rfl⟩
  · exact ⟨rfl, searches.unchanged given⟩
  · exact ⟨by simp only [batch, List.append_nil], searches.unchanged given⟩
  · exact ⟨by simp only [batch, List.append_nil], rfl⟩

/-- What searches only hands over nothing and changes the safe list at most. Induction
follows the calls. -/
theorem run_searches_store {α : Type} {program : StoreM α}
    (searches : program.Calls StoreOp.Searches) {run after : DeviceRun ι} {result : α}
    (ran : program.run (answerWith store thread outcome) run = some (result, after)) :
    after.issued = run.issued ∧
      after.store = { run.store with safeLbaList := after.store.safeLbaList } := by
  induction program generalizing run with
  | done result =>
    obtain ⟨-, rfl⟩ := Prod.mk.inj (Option.some.inj ran)
    exact ⟨rfl, rfl⟩
  | call op next inductionHypothesis =>
    rw [Program.run_call] at ran
    obtain ⟨⟨answered, between⟩, reply, further⟩ := Option.bind_eq_some_iff.mp ran
    obtain ⟨issued, rest⟩ := inductionHypothesis answered (searches.2 answered) further
    obtain ⟨issuedFirst, first⟩ := answerWith_searches searches.1 reply
    refine ⟨issued.trans issuedFirst, ?_⟩
    rw [rest, first]

/-- In particular it leaves the media alone. -/
theorem run_searches {α : Type} {program : StoreM α} (searches : program.Calls StoreOp.Searches)
    {run after : DeviceRun ι} {result : α}
    (ran : program.run (answerWith store thread outcome) run = some (result, after)) :
    after.issued = run.issued ∧ after.store.media = run.store.media := by
  obtain ⟨issued, unchanged⟩ := run_searches_store searches ran
  exact ⟨issued, by rw [unchanged]⟩

end Device

section Preparation

variable {poolId : UInt32}

/-- The look-up of a pair of a batch makes the calls of a search. -/
theorem searches_batchCached (pair : NvmKvIovec) (state : BatchState) :
    (batchCached store poolId pair state).Calls StoreOp.Searches := by
  unfold batchCached
  by_cases cached : 0 < store.cacheSize
  · rw [if_pos cached]
    refine Program.Calls.bind (Program.Calls.perform (.inl trivial)) fun found => ?_
    obtain ⟨found, context⟩ := found
    dsimp only
    split_ifs
    · trivial
    · cases state.lbaList.lookup context.contextEntry.lba with
      | none =>
        refine Program.Calls.bind (searches_insertEntry _) fun wait => ?_
        cases wait with
        | true => exact Program.Calls.bind (Program.Calls.perform (.inr trivial)) fun _ => trivial
        | false => trivial
      | some chosenKey => trivial
    · trivial
    · trivial
  · rw [if_neg cached]
    trivial

/-- Preparing a pair only searches. -/
theorem searches_batchPair (pair : NvmKvIovec) (buf : PoolBuf) (state : BatchState) :
    (batchPair store poolId pair buf state).Calls StoreOp.Searches := by
  unfold batchPair
  split
  · trivial
  · refine Program.Calls.bind (searches_batchCached pair state) fun cached => ?_
    split
    · trivial
    · dsimp only
      split
      · trivial
      · split
        · trivial
        · refine Program.Calls.bind ?_ fun placed => ?_
          · unfold batchLba
            split
            · trivial
            · unfold kvGenLba
              dsimp only
              split
              · trivial
              · trivial
              · exact searches_kvGenLbaProbes
          · split
            · trivial
            · unfold batchPrepare
              dsimp only
              split
              · trivial
              · split
                · trivial
                · exact Program.Calls.bind (reads_kvProcessForWrite _ _ _ _ _ _).searches
                    fun _ => trivial

/-- Preparing a batch only searches. Induction follows its pairs. -/
theorem searches_batchPairs (buf : Nat → PoolBuf) (i : Nat) (pairs : List NvmKvIovec)
    (state : BatchState) :
    (batchPairs store poolId buf i pairs state).Calls StoreOp.Searches := by
  induction pairs generalizing i state with
  | nil => trivial
  | cons pair rest inductionHypothesis =>
    refine Program.Calls.bind (searches_batchPair pair (buf i) state) fun prepared => ?_
    split
    · trivial
    · exact inductionHypothesis _ _

/-- So does the release of the addresses. -/
theorem searches_batchRelease (state : BatchState) :
    (batchRelease state).Calls StoreOp.Searches := by
  unfold batchRelease
  split
  · exact searches_deleteLbas _
  · trivial

end Preparation

section Writing

variable {outcome : Nat → Bool} {poolId : UInt32}

/-- The vectors of a prepared batch: its trims and then its writes. -/
def BatchState.handed (prepared : BatchState) : List NvmIovec :=
  firstIovecs prepared.iovecTrm prepared.idxTrm ++ firstIovecs prepared.iovecWrt prepared.idxWrt

/-- The run after a batch was handed over, which was written if the operation works. -/
def DeviceRun.afterBatch (store : NvmKvStore) (thread : ι) (outcome : Nat → Bool)
    (iovec : List NvmIovec) (run : DeviceRun ι) : DeviceRun ι where
  store :=
    if outcome run.operations then
      { run.store with
        media := run.store.media.applyBatch store.sectorSize iovec
        log := run.store.log ++ [(thread, iovec)] }
    else run.store
  operations := run.operations + 1
  issued := run.issued ++ [iovec]

/-- A batch is written as a whole or not at all. -/
theorem run_nvmWritev_with (iovec : List NvmIovec) (run : DeviceRun ι) :
    (nvmWritev iovec).run (answerWith store thread outcome) run =
      some (if outcome run.operations then .ok () else .error .io,
        run.afterBatch store thread outcome iovec) := by
  cases works : outcome run.operations with
  | true =>
    simp only [nvmWritev, nvmBatchAtomicOperations, ask, Program.run_bind, Program.run_perform,
      answerWith, StoreOp.failure, StoreOp.batch, works, if_true, answer, Option.map_some,
      Option.bind_some, Program.run_pure, DeviceRun.afterBatch]
  | false =>
    simp only [nvmWritev, nvmBatchAtomicOperations, ask, Program.run_bind, Program.run_perform,
      answerWith, StoreOp.failure, StoreOp.batch, works, Bool.false_eq_true, if_false,
      Option.bind_some, Program.run_pure, DeviceRun.afterBatch]

/-- As many vectors are taken from the array as are counted. -/
theorem firstIovecs_length (array : Nat → NvmIovec) (count : Nat) :
    (firstIovecs array count).length = count := by
  rw [firstIovecs, List.length_map, List.length_range]

/-- Trims and writes that have room in a batch are handed over together, and then the writes once
more unless they are written at once. By then the number of trims has grown by that of the writes.
-/
theorem run_batchWrite_with {prepared : BatchState}
    (fits : prepared.idxWrt + prepared.idxTrm ≤ store.capabilities.nvmMaxNumIovs)
    (run : DeviceRun ι) :
    (batchWrite store prepared).run (answerWith store thread outcome) run =
      some (
        if outcome run.operations = false then
          (.error .io, run.afterBatch store thread outcome prepared.handed)
        else if prepared.idxTrm = 0 ∨ 2 * prepared.idxWrt + prepared.idxTrm ≤
            store.capabilities.nvmMaxNumIovs then
          (.ok (), run.afterBatch store thread outcome prepared.handed)
        else
          let between := run.afterBatch store thread outcome prepared.handed
          (if outcome between.operations then .ok () else .error .io,
            between.afterBatch store thread outcome
              (firstIovecs prepared.iovecWrt prepared.idxWrt))) := by
  unfold batchWrite
  by_cases trims : prepared.idxTrm = 0
  · have handed : prepared.handed = firstIovecs prepared.iovecWrt prepared.idxWrt := by
      rw [BatchState.handed, trims]
      rfl
    simp only [trims, if_true, true_or, run_nvmWritev_with, handed]
    cases outcome run.operations <;> rfl
  · have length : prepared.handed.length = prepared.idxTrm + prepared.idxWrt := by
      rw [BatchState.handed, List.length_append, firstIovecs_length, firstIovecs_length]
    have handed : firstIovecs prepared.iovecTrm prepared.idxTrm ++
        firstIovecs prepared.iovecWrt prepared.idxWrt = prepared.handed := rfl
    simp only [trims, if_false, false_or, if_pos fits, handed, Program.run_bind,
      run_nvmWritev_with, Option.bind_some, length]
    cases works : outcome run.operations with
    | false => rfl
    | true =>
      have again : store.capabilities.nvmMaxNumIovs <
          prepared.idxWrt + (prepared.idxTrm + prepared.idxWrt) ↔
          ¬2 * prepared.idxWrt + prepared.idxTrm ≤ store.capabilities.nvmMaxNumIovs := by
        omega
      simp only [if_true, again, ite_not]
      split
      · rfl
      · exact run_nvmWritev_with _ _

/-- A pool is validated without the device. -/
theorem run_kvValidatePoolId_with (run : DeviceRun ι) :
    (kvValidatePoolId poolId).run (answerWith store thread outcome) run =
      some (decide (poolStatus run.store.inUse run.store.deleted poolId = .poolInUse ∨
        poolId = 0xFFFFFFFF), run) := rfl

/-- A batch that the call accepts before it looks at the pairs. -/
structure BatchAccepted (store : NvmKvStore) (state : StoreState ι) (poolId : UInt32)
    (kvIov : List NvmKvIovec) : Prop where
  pool : poolStatus state.inUse state.deleted poolId = .poolInUse ∨ poolId = 0xFFFFFFFF
  pairs : kvIov ≠ []
  few : kvIov.length ≤ store.capabilities.nvmMaxNumIovs / 2

/-- What is left to do for a batch whose pairs were looked at. -/
theorem run_kvBatchPut_prepared {kvIov : List NvmKvIovec} {allocation : BatchAllocation}
    {iovecTrm iovecWrt : Nat → NvmIovec} {run reached : DeviceRun ι} {prepared : BatchState}
    {result : Except NvmErrorCode Unit} (accepted : BatchAccepted store run.store poolId kvIov)
    (allocated : allocation.iovec = some (iovecTrm, iovecWrt))
    (ran : (batchPairs store poolId allocation.buf 0 kvIov (.initial iovecTrm iovecWrt)).run
      (answerWith store thread outcome) run = some ((result, prepared), reached)) :
    (kvBatchPut store poolId kvIov allocation).run (answerWith store thread outcome) run =
      match result with
      | .error code => ((batchRelease prepared).run (answerWith store thread outcome) reached).map
          fun released => (.error code, released.2)
      | .ok () => ((batchFinish store prepared).run (answerWith store thread outcome) reached).bind
          fun ended => ((batchRelease prepared).run (answerWith store thread outcome) ended.2).map
            fun released => (ended.1, released.2) := by
  obtain ⟨pool, pairs, few⟩ := accepted
  simp only [kvBatchPut, Program.run_bind, run_kvValidatePoolId_with, Option.bind_some, pool,
    decide_true, Bool.not_true, pairs, decide_false, Bool.or_self, Bool.false_eq_true, if_false,
    Nat.not_lt.mpr few, allocated, ran]
  cases result with
  | error code =>
    simp only [Program.run_bind]
    cases (batchRelease prepared).run (answerWith store thread outcome) reached <;> rfl
  | ok =>
    simp only [Program.run_bind]
    cases (batchFinish store prepared).run (answerWith store thread outcome) reached with
    | none => rfl
    | some ended =>
      simp only [Option.bind_some]
      cases (batchRelease prepared).run (answerWith store thread outcome) ended.2 <;> rfl

/-- Releasing the addresses of a batch never waits. -/
theorem run_batchRelease_with (prepared : BatchState) (run : DeviceRun ι) :
    ∃ released, (batchRelease prepared).run (answerWith store thread outcome) run =
        some ((), released) ∧
      released.issued = run.issued ∧ released.store.media = run.store.media := by
  have runs : ∀ (lbas : List Nat) (run : DeviceRun ι), ∃ released,
      (deleteLbas lbas).run (answerWith store thread outcome) run = some ((), released) := by
    intro lbas
    induction lbas with
    | nil => exact fun run => ⟨run, rfl⟩
    | cons lba rest inductionHypothesis => exact fun run => inductionHypothesis _
  obtain ⟨released, ran⟩ : ∃ released,
      (batchRelease prepared).run (answerWith store thread outcome) run = some ((), released) := by
    unfold batchRelease
    split
    · exact runs _ run
    · exact ⟨run, rfl⟩
  exact ⟨released, ran, run_searches (searches_batchRelease prepared) ran⟩

/-- Remembering the pairs in the cache hands over nothing and changes the cache at most. -/
theorem run_batchFinish_store (prepared : BatchState) {run reached : DeviceRun ι}
    {result : Except NvmErrorCode Unit}
    (ran : (batchWrite store prepared).run (answerWith store thread outcome) run =
      some (result, reached)) :
    ∃ after, (batchFinish store prepared).run (answerWith store thread outcome) run =
        some (result, after) ∧
      after.issued = reached.issued ∧
      after.store = { reached.store with cache := after.store.cache } := by
  unfold batchFinish
  rw [Program.run_bind, ran, Option.bind_some]
  cases result with
  | error code => exact ⟨reached, rfl, rfl, rfl⟩
  | ok =>
    dsimp only
    split
    · exact ⟨_, rfl, rfl, rfl⟩
    · exact ⟨reached, rfl, rfl, rfl⟩

/-- In particular it leaves the media alone. -/
theorem run_batchFinish_with (prepared : BatchState) {run reached : DeviceRun ι}
    {result : Except NvmErrorCode Unit}
    (ran : (batchWrite store prepared).run (answerWith store thread outcome) run =
      some (result, reached)) :
    ∃ after, (batchFinish store prepared).run (answerWith store thread outcome) run =
        some (result, after) ∧
      after.issued = reached.issued ∧ after.store.media = reached.store.media := by
  obtain ⟨after, ended, issued, unchanged⟩ := run_batchFinish_store prepared ran
  exact ⟨after, ended, issued, by rw [unchanged]⟩

/-- Whatever the device does from here on, the batch put hands over one batch with all its
vectors, and an error leaves the media as they were before the call. -/
def PutsAtOnce (store : NvmKvStore) (thread : ι) (poolId : UInt32) (kvIov : List NvmKvIovec)
    (allocation : BatchAllocation) (outcome : Nat → Bool) (run : DeviceRun ι)
    (prepared : BatchState) (reached : DeviceRun ι) : Prop :=
  ∀ further : Nat → Bool, (∀ k, k < reached.operations → further k = outcome k) →
    ∃ result after, (kvBatchPut store poolId kvIov allocation).run
        (answerWith store thread further) run = some (result, after) ∧
      after.issued = run.issued ++ [prepared.handed] ∧
      ∀ code, result = .error code → after.store.media = run.store.media

/-- A prepared batch whose vectors have room together is put by one operation just when its writes
are not handed over a second time. The proof says how the call ends for any device first, and then
lets all operations work after the preparation. -/
theorem putsAtOnce_iff {kvIov : List NvmKvIovec} {allocation : BatchAllocation}
    {iovecTrm iovecWrt : Nat → NvmIovec} {run reached : DeviceRun ι} {prepared : BatchState}
    (accepted : BatchAccepted store run.store poolId kvIov)
    (allocated : allocation.iovec = some (iovecTrm, iovecWrt))
    (ran : (batchPairs store poolId allocation.buf 0 kvIov (.initial iovecTrm iovecWrt)).run
      (answerWith store thread outcome) run = some ((.ok (), prepared), reached))
    (fits : prepared.idxWrt + prepared.idxTrm ≤ store.capabilities.nvmMaxNumIovs) :
    PutsAtOnce store thread poolId kvIov allocation outcome run prepared reached ↔
      prepared.idxTrm = 0 ∨
        2 * prepared.idxWrt + prepared.idxTrm ≤ store.capabilities.nvmMaxNumIovs := by
  obtain ⟨issued, media⟩ := run_searches (searches_batchPairs _ _ _ _) ran
  have ends : ∀ further : Nat → Bool, (∀ k, k < reached.operations → further k = outcome k) →
      ∀ result last, (batchWrite store prepared).run (answerWith store thread further) reached =
        some (result, last) →
      ∃ after, (kvBatchPut store poolId kvIov allocation).run
        (answerWith store thread further) run =
          some (result, after) ∧
        after.issued = last.issued ∧ after.store.media = last.store.media := by
    intro further agree result last wrote
    obtain ⟨-, again⟩ := run_agree ran agree
    obtain ⟨after, finished, issuedFinish, mediaFinish⟩ := run_batchFinish_with prepared wrote
    obtain ⟨released, ranRelease, issuedRelease, mediaRelease⟩ :=
      @run_batchRelease_with _ store thread further prepared after
    refine ⟨released, ?_, issuedRelease.trans issuedFinish, mediaRelease.trans mediaFinish⟩
    rw [run_kvBatchPut_prepared accepted allocated again]
    simp only [finished, Option.bind_some, ranRelease, Option.map_some]
  constructor
  · intro atOnce
    by_contra twice
    have agree : ∀ k, k < reached.operations →
        (fun k => if k < reached.operations then outcome k else true) k = outcome k :=
      fun k before => if_pos before
    obtain ⟨result, after, put, handed, -⟩ := atOnce _ agree
    have wrote := @run_batchWrite_with _ store thread
      (fun k => if k < reached.operations then outcome k else true) prepared fits reached
    rw [if_neg (by simp), if_neg twice] at wrote
    obtain ⟨last, again, handedTwice, -⟩ := ends _ agree _ _ wrote
    rw [put, Option.some.injEq, Prod.mk.injEq] at again
    obtain ⟨-, rfl⟩ := again
    rw [handed] at handedTwice
    have lengths := congrArg List.length handedTwice
    simp only [DeviceRun.afterBatch, issued, List.length_append, List.length_singleton] at lengths
    omega
  · intro once further agree
    have wrote := @run_batchWrite_with _ store thread further prepared fits reached
    have one : ∃ result, (batchWrite store prepared).run (answerWith store thread further) reached =
          some (result, reached.afterBatch store thread further prepared.handed) ∧
        ∀ code, result = .error code → further reached.operations = false := by
      rw [wrote]
      cases works : further reached.operations with
      | false => exact ⟨_, rfl, fun _ _ => rfl⟩
      | true =>
        rw [if_neg (by simp), if_pos once]
        exact ⟨_, rfl, fun code wrong => nomatch wrong⟩
    obtain ⟨result, wrote, failed⟩ := one
    obtain ⟨after, put, handed, left⟩ := ends further agree _ _ wrote
    refine ⟨result, after, put, ?_, ?_⟩
    · rw [handed, ← issued]
      rfl
    · intro code error
      rw [left, ← media]
      simp only [DeviceRun.afterBatch, failed code error, Bool.false_eq_true, if_false]

/-- A batch put whose pairs are not all prepared hands over nothing. -/
theorem run_kvBatchPut_unprepared {kvIov : List NvmKvIovec} {allocation : BatchAllocation}
    {iovecTrm iovecWrt : Nat → NvmIovec} {run reached : DeviceRun ι} {prepared : BatchState}
    {code : NvmErrorCode} (accepted : BatchAccepted store run.store poolId kvIov)
    (allocated : allocation.iovec = some (iovecTrm, iovecWrt))
    (ran : (batchPairs store poolId allocation.buf 0 kvIov (.initial iovecTrm iovecWrt)).run
      (answerWith store thread outcome) run = some ((.error code, prepared), reached)) :
    ∃ after, (kvBatchPut store poolId kvIov allocation).run (answerWith store thread outcome) run =
        some (.error code, after) ∧
      after.issued = run.issued ∧ after.store.media = run.store.media := by
  obtain ⟨issued, media⟩ := run_searches (searches_batchPairs _ _ _ _) ran
  obtain ⟨released, ranRelease, issuedRelease, mediaRelease⟩ :=
    @run_batchRelease_with _ store thread outcome prepared reached
  refine ⟨released, ?_, issuedRelease.trans issued, mediaRelease.trans media⟩
  rw [run_kvBatchPut_prepared accepted allocated ran]
  simp only [ranRelease, Option.map_some]

end Writing

/-- A batch put whose pairs are all prepared and whose vectors have room in one batch is
one atomic operation just when it has no trims, or room for its writes twice. One whose
preparation fails hands over nothing and leaves the media alone. -/
theorem batch_put_atomic_iff (store : NvmKvStore) (thread : ι) (outcome : Nat → Bool)
    (poolId : UInt32) (kvIov : List NvmKvIovec) (allocation : BatchAllocation)
    (iovecTrm iovecWrt : Nat → NvmIovec) (run reached : DeviceRun ι) (prepared : BatchState)
    (result : Except NvmErrorCode Unit) (accepted : BatchAccepted store run.store poolId kvIov)
    (allocated : allocation.iovec = some (iovecTrm, iovecWrt))
    (ran : (batchPairs store poolId allocation.buf 0 kvIov (.initial iovecTrm iovecWrt)).run
      (answerWith store thread outcome) run = some ((result, prepared), reached)) :
    (∀ code, result = .error code → ∃ after,
      (kvBatchPut store poolId kvIov allocation).run (answerWith store thread outcome) run =
        some (.error code, after) ∧
      after.issued = run.issued ∧ after.store.media = run.store.media) ∧
    (result = .ok () →
      prepared.idxWrt + prepared.idxTrm ≤ store.capabilities.nvmMaxNumIovs →
      (PutsAtOnce store thread poolId kvIov allocation outcome run prepared reached ↔
        prepared.idxTrm = 0 ∨
          2 * prepared.idxWrt + prepared.idxTrm ≤ store.capabilities.nvmMaxNumIovs)) := by
  constructor
  · rintro code rfl
    exact run_kvBatchPut_unprepared accepted allocated ran
  · rintro rfl fits
    exact putsAtOnce_iff accepted allocated ran fits

/-- Keys of one letter, `a` to `p`. -/
def letterKeys (count : Nat) : List UInt8 := (List.range count).map fun i => UInt8.ofNat (97 + i)

/-- A batch that puts a value of one sector for each of some keys, with replacement. -/
def lettersBatch (count : Nat) : List NvmKvIovec :=
  (letterKeys count).map fun letter => ⟨[letter], ⟨0, fun _ => 1⟩, 512, 0, 0, true⟩

/-- A vector that is not filled in. -/
def blankVector : NvmIovec := ⟨⟨0, fun _ => 0⟩, 0, 0, .write⟩

/-- An allocation that has memory for every batch. -/
def batchMemory : BatchAllocation :=
  ⟨some (fun _ => blankVector, fun _ => blankVector), fun _ => ⟨fun _ => 0, true⟩⟩

/-- A store with values of two sectors for the sixteen keys. -/
def lettersStored : DeviceRun Unit where
  store := .opened (fun l =>
    match (letterKeys 16).find? fun letter =>
        NvmKvStore.terabyteStore.probeLba 0 [letter] 0 = l with
    | some letter => some (writeHeader (fun _ => 0) 0 [letter] 1024 512 0 0)
    | none => none) (fun _ => false) 0
  operations := 0
  issued := []

/-- The preparation of such a batch on a device that works. -/
def lettersPrepared (count : Nat) :
    Option ((Except NvmErrorCode Unit × BatchState) × DeviceRun Unit) :=
  (batchPairs NvmKvStore.terabyteStore 0 batchMemory.buf 0 (lettersBatch count)
    (.initial (fun _ => blankVector) fun _ => blankVector)).run
      (answerWith NvmKvStore.terabyteStore () fun _ => true) lettersStored

/-- The example is prepared with the numbers of trims and writes that were counted. -/
theorem lettersPrepared_counts {count trims writes : Nat}
    (counted : (lettersPrepared count).map (fun ran =>
      (match ran.1.1 with | .ok () => true | .error _ => false,
        ran.1.2.idxTrm, ran.1.2.idxWrt)) = some (true, trims, writes)) :
    ∃ prepared reached, lettersPrepared count = some ((.ok (), prepared), reached) ∧
      prepared.idxTrm = trims ∧ prepared.idxWrt = writes := by
  obtain ⟨⟨⟨result, prepared⟩, reached⟩, ran, same⟩ := Option.map_eq_some_iff.mp counted
  simp only [Prod.mk.injEq] at same
  obtain ⟨works, trims, writes⟩ := same
  cases result with
  | error code => exact nomatch works
  | ok => exact ⟨prepared, reached, ran, trims, writes⟩

/-- Sixteen replaced values need 16 trims and 32 writes, which have room in a batch of 64
vectors; the writes are handed over twice. -/
theorem batch_put_writes_twice :
    ¬∀ (store : NvmKvStore) (outcome : Nat → Bool) (poolId : UInt32) (kvIov : List NvmKvIovec)
      (allocation : BatchAllocation) (iovecTrm iovecWrt : Nat → NvmIovec)
      (run reached : DeviceRun Unit) (prepared : BatchState),
      BatchAccepted store run.store poolId kvIov → allocation.iovec = some (iovecTrm, iovecWrt) →
      (batchPairs store poolId allocation.buf 0 kvIov (.initial iovecTrm iovecWrt)).run
        (answerWith store () outcome) run = some ((.ok (), prepared), reached) →
      prepared.idxWrt + prepared.idxTrm ≤ store.capabilities.nvmMaxNumIovs →
      PutsAtOnce store () poolId kvIov allocation outcome run prepared reached := by
  intro atOnce
  obtain ⟨prepared, reached, ran, trims, writes⟩ :=
    @lettersPrepared_counts 16 16 32 (by decide +kernel)
  have accepted : BatchAccepted NvmKvStore.terabyteStore lettersStored.store 0 (lettersBatch 16) :=
    ⟨.inl rfl, by decide, by decide⟩
  have limit : NvmKvStore.terabyteStore.capabilities.nvmMaxNumIovs = 64 := rfl
  have fits : prepared.idxWrt + prepared.idxTrm ≤
      NvmKvStore.terabyteStore.capabilities.nvmMaxNumIovs := by
    omega
  have once := (putsAtOnce_iff accepted rfl ran fits).mp
    (atOnce _ _ _ _ batchMemory _ _ _ _ _ accepted rfl ran fits)
  omega

/-- One replaced value is put by one operation. -/
theorem batch_put_one_pair : ∃ prepared reached, prepared.idxTrm = 1 ∧
    PutsAtOnce NvmKvStore.terabyteStore () 0 (lettersBatch 1) batchMemory (fun _ => true)
      lettersStored prepared reached := by
  obtain ⟨prepared, reached, ran, trims, writes⟩ :=
    @lettersPrepared_counts 1 1 2 (by decide +kernel)
  have limit : NvmKvStore.terabyteStore.capabilities.nvmMaxNumIovs = 64 := rfl
  have puts := (batch_put_atomic_iff NvmKvStore.terabyteStore () (fun _ => true) 0
    (lettersBatch 1) batchMemory (fun _ => blankVector) (fun _ => blankVector) lettersStored reached
    prepared (.ok ()) ⟨.inl rfl, by decide, by decide⟩ rfl ran).2 rfl (by omega)
  exact ⟨prepared, reached, trims, puts.mpr (.inr (by omega))⟩

end Nvmkv
