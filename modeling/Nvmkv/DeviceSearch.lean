import Nvmkv.BatchAtomicity

/-!
# The search for an address on a device that may fail

The search of `kv_gen_lba` run by one caller, whatever the device does and whatever
its caller believes to hold. What it finds depends on the media, the clock and the
outcomes of the operations of the device, and on nothing else: `searchWith` walks
along the addresses by these alone. It also tells what happens to the safe list. One
address at most is inserted, the one where the search ends with success, unless the
caller was believed to hold it. One at most is removed, the first one, when the
caller was believed to hold that and its header is not the key's.

`run_kvGenLbaProbes_with` says that the program does the same. It is left waiting
when the address to be inserted is on the safe list already: its caller is alone, and
nobody else will remove it.
-/

namespace Nvmkv

variable {ι : Type}

/-- The run after some more operations of the device. -/
def DeviceRun.counted (run : DeviceRun ι) (operations : Nat) : DeviceRun ι :=
  { run with operations := operations }

/-- The run in which a thread has taken an address. -/
def DeviceRun.hold (run : DeviceRun ι) (thread : ι) (lba : Nat) : DeviceRun ι :=
  { run with store := run.store.hold thread lba }

/-- The run in which an address was released. -/
def DeviceRun.release (run : DeviceRun ι) (lba : Nat) : DeviceRun ι :=
  { run with store := run.store.release lba }

/-- A number of operations that is set twice is the second one. -/
@[simp] theorem DeviceRun.counted_counted (run : DeviceRun ι) (first second : Nat) :
    (run.counted first).counted second = run.counted second := rfl

/-- It is the number that was set. -/
@[simp] theorem DeviceRun.counted_operations (run : DeviceRun ι) (operations : Nat) :
    (run.counted operations).operations = operations := rfl

/-- The store does not depend on it. -/
@[simp] theorem DeviceRun.counted_store (run : DeviceRun ι) (operations : Nat) :
    (run.counted operations).store = run.store := rfl

/-- The run after an address, if any, was removed from the safe list. -/
def DeviceRun.drop (run : DeviceRun ι) : Option Nat → DeviceRun ι
  | none => run
  | some lba => run.release lba

/-- The run after an address, if any, was inserted by a caller who is alone: one that is
on the safe list is waited for without end. -/
def DeviceRun.take (run : DeviceRun ι) (thread : ι) : Option Nat → Option (DeviceRun ι)
  | none => some run
  | some lba => if run.store.safeLbaList lba = none then some (run.hold thread lba) else none

/-- An address that is not on the safe list is taken. -/
theorem DeviceRun.take_unlisted {run : DeviceRun ι} {lba : Nat}
    (unlisted : run.store.safeLbaList lba = none) (thread : ι) :
    run.take thread (some lba) = some (run.hold thread lba) :=
  if_pos unlisted

/-- A call waits when it takes an address that is on the list. -/
theorem DeviceRun.take_eq_none_iff {run : DeviceRun ι} {thread : ι} {taken : Option Nat} :
    run.take thread taken = none ↔
      ∃ lba, taken = some lba ∧ run.store.safeLbaList lba ≠ none := by
  cases taken with
  | none => simp [DeviceRun.take]
  | some lba => simp [DeviceRun.take]

/-- How a search ends: what it returns, the address it inserted, the one it removed, and
the operations of the device up to its end. -/
structure SearchEnd where
  retCode : Except NvmErrorCode Unit
  trimLen : Nat
  keyHashVal : Nat
  insertLba : Bool
  taken : Option Nat
  dropped : Option Nat
  operations : Nat

/-- What the search returns, with the header buffer. -/
def SearchEnd.result (ends : SearchEnd) (buf : Region) : GenLba :=
  ⟨ends.retCode, ends.trimLen, ends.keyHashVal, ends.insertLba, buf⟩

/-- The end of a search along some addresses of which the caller is believed to hold the
first one or not. -/
def searchWith (store : NvmKvStore) (outcome : Nat → Bool) (clock : Nat) (media : Media)
    (poolId : UInt32) (pair : NvmKvIovec) : (insertLba : Bool) → (operations : Nat) →
    List Nat → SearchEnd
  | insertLba, operations, [] =>
      ⟨.error .internalFailure, 0, store.probeLba poolId pair.key maxCollision, insertLba, none,
        none, operations⟩
  | insertLba, operations, lba :: rest =>
      let inserted := if insertLba then none else some lba
      if outcome operations = false then
        ⟨.error .internalFailure, 0, lba, insertLba, none, none, operations + 1⟩
      else if windowFree store media lba then
        ⟨.ok (), 0, lba, true, some lba, none, operations + 1⟩
      else if outcome (operations + 1) = false then
        ⟨.error .io, 0, lba, insertLba, none, none, operations + 2⟩
      else if holds store media poolId pair.key lba then
        if pairExpired store clock (storedHeader store media lba) then
          ⟨.ok (), 0, lba, true, inserted, none, operations + 2⟩
        else if pair.replace then
          ⟨.ok (), replacedLen (storedHeader store media lba) pair.valueLen, lba, true, inserted,
            none, operations + 2⟩
        else
          ⟨.error .objectExists, 0, lba, insertLba, none, none, operations + 2⟩
      else
        { searchWith store outcome clock media poolId pair false (operations + 2) rest with
          dropped := if insertLba then some lba else none }

/-- A search ends at an address whose window is free. -/
theorem searchWith_fresh {store : NvmKvStore} {outcome : Nat → Bool} {clock operations lba : Nat}
    {media : Media} {poolId : UInt32} {pair : NvmKvIovec} {insertLba : Bool} {rest : List Nat}
    (works : outcome operations = true) (free : windowFree store media lba = true) :
    searchWith store outcome clock media poolId pair insertLba operations (lba :: rest) =
      ⟨.ok (), 0, lba, true, some lba, none, operations + 1⟩ := by
  simp only [searchWith, works, free, Bool.true_eq_false, if_true, if_false]

/-- A search that does not start with an address believed to be held removes none. -/
theorem searchWith_dropped (store : NvmKvStore) (outcome : Nat → Bool) (clock : Nat)
    (media : Media) (poolId : UInt32) (pair : NvmKvIovec) (operations : Nat) (lbas : List Nat) :
    (searchWith store outcome clock media poolId pair false operations lbas).dropped = none := by
  cases lbas with
  | nil => rfl
  | cons lba rest =>
    simp only [searchWith, Bool.false_eq_true, if_false]
    split_ifs <;> rfl

section Runs

variable (store : NvmKvStore) (thread : ι) (outcome : Nat → Bool) (run : DeviceRun ι)

/-- An existence check is one operation, which may fail. -/
@[simp] theorem run_kvRangeExists_with (search : NvmBlockRange) :
    (kvRangeExists search).run (answerWith store thread outcome) run =
      some (if outcome run.operations = false then .error .internalFailure
        else if (run.store.media.rangeExists search).length = 0 then .error .objectNotFound
        else .ok (run.store.media.rangeExists search), run.counted (run.operations + 1)) := by
  cases works : outcome run.operations with
  | true =>
    simp only [kvRangeExists, nvmRangeExists, ask, Program.run_bind, Program.run_perform,
      answerWith, StoreOp.failure, StoreOp.batch, works, if_true, answer, Option.map_some,
      Option.bind_some, Program.run_pure, List.append_nil, DeviceRun.counted, Bool.true_eq_false,
      if_false]
  | false =>
    simp only [kvRangeExists, nvmRangeExists, ask, Program.run_bind, Program.run_perform,
      answerWith, StoreOp.failure, StoreOp.batch, works, Bool.false_eq_true, if_false,
      Option.bind_some, Program.run_pure, List.append_nil, DeviceRun.counted, if_true]

/-- Reading one sector into a pool buffer is one operation of the device. -/
@[simp] theorem run_nvmReadv_sector_with (buf : Region) (lba : Nat) :
    (nvmReadv store [⟨poolBuffer buf, store.sectorSize, lba, .write⟩]).run
      (answerWith store thread outcome) run =
    some (if outcome run.operations = false then .error .io
      else .ok (store.sectorSize, [slotBuffer store run.store.media buf lba]),
      run.counted (run.operations + 1)) := by
  have few : ¬store.capabilities.nvmMaxNumIovs <
      [NvmIovec.mk (poolBuffer buf) store.sectorSize lba .write].length :=
    Nat.not_lt.mpr store.capabilities.iovsPositive
  have aligned : ¬([NvmIovec.mk (poolBuffer buf) store.sectorSize lba .write].any fun vector =>
      decide (vector.iovBase.address % store.sectorSize ≠ 0)) = true := by
    simp [poolBuffer]
  cases works : outcome run.operations with
  | true =>
    simp only [nvmReadv, if_neg few, if_neg aligned, preadv, ask, Program.run_bind,
      Program.run_perform, answerWith, StoreOp.failure, StoreOp.batch, works, if_true, answer,
      Option.map_some, Option.bind_some, Program.run_pure, List.append_nil, DeviceRun.counted,
      Bool.true_eq_false, if_false]
    simp only [poolBuffer, Media.readBuffers, Media.fillBuffers, Region.drop_zero, List.map_cons,
      List.map_nil, List.sum_cons, List.sum_nil, Nat.add_zero, slotBuffer]
  | false =>
    simp only [nvmReadv, if_neg few, if_neg aligned, preadv, ask, Program.run_bind,
      Program.run_perform, answerWith, StoreOp.failure, StoreOp.batch, works, Bool.false_eq_true,
      if_false, Option.bind_some, Program.run_pure, List.append_nil, DeviceRun.counted, if_true]

/-- The time is asked for without the device. -/
@[simp] theorem run_currentTime_with :
    currentTime.run (answerWith store thread outcome) run = some (run.store.clock, run) := rfl

/-- So is an address released. -/
@[simp] theorem run_deleteLbaFromSafeList_with (lba : Nat) :
    (deleteLbaFromSafeList lba).run (answerWith store thread outcome) run =
      some ((run.store.safeLbaList lba).isSome, run.release lba) := rfl

/-- The expiry check of the writing paths does not touch the device. -/
@[simp] theorem run_kvExpire_keep_with (hdr : NvmKvHeader) (lba : Nat) :
    (kvExpire store hdr lba false).run (answerWith store thread outcome) run =
      some (if pairExpired store run.store.clock hdr then .error .objectNotFound else .ok (),
        run) := by
  unfold kvExpire pairExpired
  by_cases disabled : store.expiryMode = .disableExpiry
  · simp [disabled]
  · simp only [disabled, if_false, Program.run_bind, run_currentTime_with, Option.bind_some, ne_eq,
      not_false_eq_true, true_and, decide_eq_true_eq, Bool.not_false, if_true]
    split <;> rfl

/-- A caller who is alone takes an address at once or waits without end. -/
theorem run_insertEntry_with (lba : Nat) :
    (insertEntry lba).run (answerWith store thread outcome) run =
      (run.take thread (some lba)).map fun after => (false, after) := by
  simp only [insertEntry, checkEntry, awaitEntry, ask, Program.run_bind, Program.run_perform,
    answerWith, StoreOp.failure, answer, DeviceRun.take]
  by_cases free : run.store.safeLbaList lba = none
  · simp only [free, Option.isNone_none, if_true, Option.map_some, Option.bind_some,
      Program.run_pure]
    rfl
  · have taken : (run.store.safeLbaList lba).isNone = false := by
      rw [Option.isNone_eq_false_iff, Option.isSome_iff_ne_none]
      exact free
    simp only [taken, Bool.false_eq_true, if_false, Option.map_some, Option.bind_some,
      Option.map_none, if_neg free, Program.run_bind, Program.run_perform, answerWith,
      StoreOp.failure, answer]
    rfl

/-- How the reading of an address ends, whether the caller is believed to hold it or not. -/
theorem run_kvGenLbaRead_with {poolId : UInt32} {pair : NvmKvIovec} {lba rounds : Nat}
    {insertLba : Bool} {buf : Region} (short : pair.key.length ≤ nvmKvMaxKeySize) :
    (kvGenLbaRead store poolId pair lba (rounds + 1) insertLba buf).run
      (answerWith store thread outcome) run =
      let after := run.counted (run.operations + 1)
      let inserted := if insertLba then none else some lba
      let read := slotBuffer store run.store.media buf lba
      let hdr := storedHeader store run.store.media lba
      if outcome run.operations = false then
        some (.returns ⟨.error .io, 0, lba, insertLba, buf⟩, after)
      else if holds store run.store.media poolId pair.key lba then
        if pairExpired store run.store.clock hdr then
          (after.take thread inserted).map fun held =>
            (.returns ⟨.ok (), 0, lba, true, read⟩, held)
        else if pair.replace then
          (after.take thread inserted).map fun held =>
            (.leaves true (replacedLen hdr pair.valueLen) read, held)
        else
          some (.returns ⟨.error .objectExists, 0, lba, insertLba, read⟩, after)
      else
        some (.leaves false 0 read, after.drop (if insertLba then some lba else none)) := by
  simp only [kvGenLbaRead, Program.run_bind, run_nvmReadv_sector_with, Option.bind_some]
  cases works : outcome run.operations with
  | false => simp only [if_true, Program.run_pure]
  | true =>
    simp only [Bool.true_eq_false, if_false, List.headD_cons,
      headerMatches_slotBuffer store run.store.media buf lba poolId short, readHeader_slotBuffer]
    cases holds store run.store.media poolId pair.key lba with
    | false =>
      cases insertLba <;>
        simp only [Bool.false_eq_true, if_true, if_false, Program.run_pure, Program.run_bind,
          run_deleteLbaFromSafeList_with, Option.bind_some, DeviceRun.drop]
    | true =>
      have clock : (run.counted (run.operations + 1)).store.clock = run.store.clock := rfl
      simp only [if_true, Program.run_bind, run_kvExpire_keep_with, Option.bind_some, clock]
      cases pairExpired store run.store.clock (storedHeader store run.store.media lba) with
      | true =>
        cases insertLba with
        | true =>
          simp only [if_true, Program.run_pure, DeviceRun.take, Option.map_some]
        | false =>
          simp only [if_true, Bool.false_eq_true, if_false, Program.run_bind,
            run_insertEntry_with]
          cases (run.counted (run.operations + 1)).take thread (some lba) <;> rfl
      | false =>
        cases pair.replace with
        | true =>
          cases insertLba with
          | true =>
            simp only [if_true, Bool.false_eq_true, if_false, Program.run_pure, DeviceRun.take,
              Option.map_some]
          | false =>
            simp only [if_true, Bool.false_eq_true, if_false, Program.run_bind,
              run_insertEntry_with]
            cases (run.counted (run.operations + 1)).take thread (some lba) <;> rfl
        | false => simp only [Bool.false_eq_true, if_false, Program.run_pure]

/-- The search along some addresses ends as `searchWith` says, with the address that it
inserts taken. Induction follows the addresses: at each of them the program asks for the
window, then for the header, and goes on exactly when `searchWith` does. -/
theorem run_kvGenLbaProbes_with {poolId : UInt32} {pair : NvmKvIovec}
    (short : pair.key.length ≤ nvmKvMaxKeySize) (lbas : List Nat) (insertLba : Bool)
    (buf : Region) (run : DeviceRun ι) :
    ∃ read : Region,
      (kvGenLbaProbes store poolId pair lbas insertLba buf).run (answerWith store thread outcome)
        run =
        let ends := searchWith store outcome run.store.clock run.store.media poolId pair insertLba
          run.operations lbas
        (((run.counted ends.operations).drop ends.dropped).take thread ends.taken).map
          fun after => (ends.result read, after) := by
  induction lbas generalizing insertLba buf run with
  | nil => exact ⟨buf, rfl⟩
  | cons lba rest inductionHypothesis =>
    simp only [kvGenLbaProbes, searchWith, Program.run_bind, run_kvRangeExists_with,
      Option.bind_some]
    cases works : outcome run.operations with
    | false => exact ⟨buf, rfl⟩
    | true =>
      simp only [Bool.true_eq_false, if_false]
      by_cases unmapped : windowFree store run.store.media lba = true
      · have empty : (run.store.media.rangeExists ⟨lba, store.maxSearchRange⟩).length = 0 :=
          of_decide_eq_true unmapped
        refine ⟨buf, ?_⟩
        simp only [empty, unmapped, if_true, Program.run_bind, run_insertEntry_with,
          DeviceRun.drop]
        cases (run.counted (run.operations + 1)).take thread (some lba) <;> rfl
      · have mapped : ¬(run.store.media.rangeExists ⟨lba, store.maxSearchRange⟩).length = 0 :=
          fun empty => unmapped (decide_eq_true empty)
        rw [Bool.not_eq_true] at unmapped
        simp only [mapped, if_false, unmapped, Bool.false_eq_true, kvGenLbaAt, Program.run_bind,
          run_kvGenLbaRead_with store thread outcome (run.counted (run.operations + 1)) short]
        simp only [DeviceRun.counted_counted, DeviceRun.counted_operations,
          DeviceRun.counted_store, Nat.add_assoc, Nat.reduceAdd]
        cases reads : outcome (run.operations + 1) with
        | false => exact ⟨buf, rfl⟩
        | true =>
          simp only [Bool.true_eq_false, if_false]
          cases holds store run.store.media poolId pair.key lba with
          | false =>
            obtain ⟨read, continued⟩ := inductionHypothesis false
              (slotBuffer store run.store.media buf lba)
              ((run.counted (run.operations + 2)).drop (if insertLba then some lba else none))
            refine ⟨read, ?_⟩
            simp only [Bool.false_eq_true, if_false, Option.bind_some]
            rw [continued]
            cases insertLba <;>
              simp only [Bool.false_eq_true, if_true, if_false, DeviceRun.drop, DeviceRun.release,
                DeviceRun.counted, StoreState.release, searchWith_dropped] <;> rfl
          | true =>
            refine ⟨slotBuffer store run.store.media buf lba, ?_⟩
            simp only [if_true]
            cases pairExpired store run.store.clock (storedHeader store run.store.media lba) with
            | true =>
              simp only [if_true, DeviceRun.drop]
              cases (run.counted (run.operations + 2)).take thread
                (if insertLba = true then none else some lba) <;> rfl
            | false =>
              cases pair.replace with
              | true =>
                simp only [if_true, Bool.false_eq_true, if_false, DeviceRun.drop]
                cases (run.counted (run.operations + 2)).take thread
                  (if insertLba = true then none else some lba) <;> rfl
              | false => rfl

end Runs

end Nvmkv
