import Nvmkv.DeviceSearch
import Nvmkv.LoneRead
import Nvmkv.ReplaceRoundTrip
import Nvmkv.UniqueKeys

/-!
# Device errors of an existence check

`kv_exists` makes a range query for each address of its key and reads the sector of those whose
window is not free. Any of these operations may fail. A query that fails ends the call with an
error. The number of bytes read is kept in an unsigned variable, so a read that fails is taken
for one that has read something, and the buffer is compared with the key as the last read, or
another call, has left it.

The loop is followed by the addresses it comes to, each with the operations made before and the
content of the buffer. Whether a key is found in a stale buffer or not, a failed read is never
reported; only a query that fails later on can still end the call with an error.
-/

namespace Nvmkv

variable {ι : Type}

section Probes

variable (store : NvmKvStore) (media : Media) (outcome : Nat → Bool) (poolId : UInt32)
  (key : List UInt8)

/-- The buffer when it is compared with the key, after the read that follows a number of
operations. -/
def comparedBuffer (lba operations : Nat) (buf : Region) : Region :=
  if outcome (operations + 1) then slotBuffer store media buf lba else buf

/-- The operations made and the buffer when the loop passes over an address. -/
def passProbe (lba operations : Nat) (buf : Region) : Option (Nat × Region) :=
  if outcome operations = false then none
  else if windowFree store media lba then some (operations + 1, buf)
  else if headerMatches (comparedBuffer store media outcome lba operations buf) poolId key then
    none
  else some (operations + 2, comparedBuffer store media outcome lba operations buf)

/-- The loop over some addresses comes to one of them, with some operations made and some
content of the buffer. -/
inductive ComesTo : List Nat → Nat → Region → Nat → Nat → Region → Prop
  | here {lba : Nat} {rest : List Nat} {operations : Nat} {buf : Region} :
      ComesTo (lba :: rest) operations buf lba operations buf
  | later {lba : Nat} {rest : List Nat} {operations : Nat} {buf : Region} {next : Nat}
      {left : Region} {last made : Nat} {found : Region}
      (passed : passProbe store media outcome poolId key lba operations buf = some (next, left))
      (reached : ComesTo rest next left last made found) :
      ComesTo (lba :: rest) operations buf last made found

/-- A query that the loop makes fails. -/
def QueryFails (probes : List Nat) (operations : Nat) (buf : Region) : Prop :=
  ∃ lba made found, ComesTo store media outcome poolId key probes operations buf lba made found ∧
    outcome made = false

/-- A read that the loop makes fails. -/
def ReadFails (probes : List Nat) (operations : Nat) (buf : Region) : Prop :=
  ∃ lba made found, ComesTo store media outcome poolId key probes operations buf lba made found ∧
    outcome made = true ∧ windowFree store media lba = false ∧ outcome (made + 1) = false

variable {store media outcome poolId key} {lba operations : Nat} {buf : Region} {rest : List Nat}

/-- At an address that ends the loop, it is the only one. -/
theorem comesTo_ends {holdsOf : Nat → Nat → Prop}
    (ends : passProbe store media outcome poolId key lba operations buf = none) :
    (∃ last made found, ComesTo store media outcome poolId key (lba :: rest) operations buf last
      made found ∧ holdsOf last made) ↔ holdsOf lba operations := by
  constructor
  · rintro ⟨last, made, found, reached, held⟩
    cases reached with
    | here => exact held
    | later passed _ =>
      rw [ends] at passed
      cases passed
  · exact fun held => ⟨lba, operations, buf, .here, held⟩

/-- At an address that the loop passes over, it is that one or one behind it. -/
theorem comesTo_passed {holdsOf : Nat → Nat → Prop} {next : Nat} {left : Region}
    (passes : passProbe store media outcome poolId key lba operations buf = some (next, left)) :
    (∃ last made found, ComesTo store media outcome poolId key (lba :: rest) operations buf last
      made found ∧ holdsOf last made) ↔
      holdsOf lba operations ∨ ∃ last made found,
        ComesTo store media outcome poolId key rest next left last made found ∧
          holdsOf last made := by
  constructor
  · rintro ⟨last, made, found, reached, held⟩
    cases reached with
    | here => exact Or.inl held
    | later passed reached =>
      rw [passes] at passed
      cases passed
      exact Or.inr ⟨last, made, found, reached, held⟩
  · rintro (held | ⟨last, made, found, reached, held⟩)
    · exact ⟨lba, operations, buf, .here, held⟩
    · exact ⟨last, made, found, .later passes reached, held⟩

/-- The failures of the two kinds, when the first address ends the loop and when it is passed
over. -/
theorem queryFails_ends
    (ends : passProbe store media outcome poolId key lba operations buf = none) :
    QueryFails store media outcome poolId key (lba :: rest) operations buf ↔
      outcome operations = false :=
  @comesTo_ends store media outcome poolId key lba operations buf rest
    (fun _ made => outcome made = false) ends

/-- Where the loop ends at an address, a reading fails in it just when the one at this address does.
-/
theorem readFails_ends
    (ends : passProbe store media outcome poolId key lba operations buf = none) :
    ReadFails store media outcome poolId key (lba :: rest) operations buf ↔
      outcome operations = true ∧ windowFree store media lba = false ∧
        outcome (operations + 1) = false :=
  @comesTo_ends store media outcome poolId key lba operations buf rest
    (fun last made => outcome made = true ∧ windowFree store media last = false ∧
      outcome (made + 1) = false) ends

/-- Where it goes on, a query fails when this one does or a later one. -/
theorem queryFails_passed {next : Nat} {left : Region}
    (passes : passProbe store media outcome poolId key lba operations buf = some (next, left)) :
    QueryFails store media outcome poolId key (lba :: rest) operations buf ↔
      outcome operations = false ∨ QueryFails store media outcome poolId key rest next left :=
  @comesTo_passed store media outcome poolId key lba operations buf rest
    (fun _ made => outcome made = false) next left passes

/-- So does a reading. -/
theorem readFails_passed {next : Nat} {left : Region}
    (passes : passProbe store media outcome poolId key lba operations buf = some (next, left)) :
    ReadFails store media outcome poolId key (lba :: rest) operations buf ↔
      (outcome operations = true ∧ windowFree store media lba = false ∧
        outcome (operations + 1) = false) ∨
      ReadFails store media outcome poolId key rest next left :=
  @comesTo_passed store media outcome poolId key lba operations buf rest
    (fun last made => outcome made = true ∧ windowFree store media last = false ∧
      outcome (made + 1) = false) next left passes

/-- No address is left to come to. -/
theorem not_comesTo_nil {last made : Nat} {found : Region} :
    ¬ComesTo store media outcome poolId key [] operations buf last made found := by
  intro reached
  cases reached

end Probes

section Runs

variable {store : NvmKvStore} {thread : ι} {outcome : Nat → Bool} {poolId : UInt32}
  {key : List UInt8}

/-- Looking at the expiry of a pair that was found makes no operation of the device, and does
not end in another error than that nothing was found. -/
theorem run_kvExpire_queue_with (hdr : NvmKvHeader) (lba : Nat) (run : DeviceRun ι) :
    ∃ result after, (kvExpire store hdr lba true).run (answerWith store thread outcome) run =
        some (result, after) ∧ after.operations = run.operations ∧
      (result = .ok () ∨ result = .error .objectNotFound) := by
  unfold kvExpire
  by_cases disabled : store.expiryMode = .disableExpiry
  · rw [if_pos disabled]
    exact ⟨.ok (), run, rfl, rfl, Or.inl rfl⟩
  · rw [if_neg disabled]
    by_cases passed : hdr.expiry < run.store.clock % 2 ^ 32 ∧ hdr.expiry ≠ 0
    · simp only [Program.run_bind, run_currentTime_with, Option.bind_some, if_pos passed,
        Bool.not_true, Bool.false_eq_true, if_false]
      exact ⟨.error .objectNotFound, _, rfl, rfl, Or.inr rfl⟩
    · simp only [Program.run_bind, run_currentTime_with, Option.bind_some, if_neg passed,
        Program.run_pure]
      exact ⟨.ok (), run, rfl, rfl, Or.inl rfl⟩

/-- An operation between two counts fails. -/
def SomeFails (outcome : Nat → Bool) (first last : Nat) : Prop :=
  ∃ operation, first ≤ operation ∧ operation < last ∧ outcome operation = false

/-- Of no operations none fails. -/
theorem not_someFails (operations : Nat) : ¬SomeFails outcome operations operations := by
  rintro ⟨operation, above, below, _⟩
  omega

/-- Of some operations one fails when the first one does or one of the rest. -/
theorem someFails_next {first last : Nat} (less : first < last) :
    SomeFails outcome first last ↔ outcome first = false ∨ SomeFails outcome (first + 1) last := by
  constructor
  · rintro ⟨operation, above, below, fails⟩
    rcases Nat.eq_or_lt_of_le above with same | behind
    · exact Or.inl (same ▸ fails)
    · exact Or.inr ⟨operation, behind, below, fails⟩
  · rintro (fails | ⟨operation, above, below, fails⟩)
    · exact ⟨first, Nat.le_refl _, less, fails⟩
    · exact ⟨operation, Nat.le_of_succ_le above, below, fails⟩

/-- At an address whose window is not free, the read leaves the buffer that is compared, whether
it fails or not. -/
theorem run_probe_mapped {run : DeviceRun ι} {lba : Nat} {rest : List Nat} {buf : Region}
    (asked : ¬outcome run.operations = false)
    (mapped : windowFree store run.store.media lba = false) :
    (kvRangeExistProbes store poolId key (lba :: rest) buf).run
        (answerWith store thread outcome) run =
      (if headerMatches (comparedBuffer store run.store.media outcome lba run.operations buf)
          poolId key then do
        match ← kvExpire store (readHeader (comparedBuffer store run.store.media outcome lba
            run.operations buf)) lba true with
        | .error code => pure (.error code)
        | .ok () => pure (.ok (readHeader (comparedBuffer store run.store.media outcome lba
            run.operations buf)))
      else kvRangeExistProbes store poolId key rest
        (comparedBuffer store run.store.media outcome lba run.operations buf)).run
          (answerWith store thread outcome) (run.counted (run.operations + 2)) := by
  have found : ¬(run.store.media.rangeExists ⟨lba, store.maxSearchRange⟩).length = 0 :=
    of_decide_eq_false mapped
  have positive : 0 < store.sectorSize := store.sector_positive
  have answered := @run_nvmReadv_sector_with ι store thread outcome
    (run.counted (run.operations + 1)) buf lba
  rw [DeviceRun.counted_operations] at answered
  rw [comparedBuffer]
  by_cases read : outcome (run.operations + 1) = false
  · have breaks : ¬outcome (run.operations + 1) = true := by
      rw [read]
      exact Bool.noConfusion
    rw [if_pos read] at answered
    simp only [kvRangeExistProbes, Program.run_bind, run_kvRangeExists_with, if_neg asked,
      if_neg found, Option.bind_some, answered, if_neg breaks, Nat.one_pos, true_and]
    rfl
  · rw [if_neg read] at answered
    simp only [kvRangeExistProbes, Program.run_bind, run_kvRangeExists_with, if_neg asked,
      if_neg found, Option.bind_some, answered, if_pos (Bool.not_eq_false _ ▸ read),
      positive, true_and, List.headD_cons]
    rfl

/-- What a loop over some addresses tells of the operations that it made: one of them failed
exactly when a query or a read did, and an error is reported exactly when it was a query. -/
def LoopReports (store : NvmKvStore) (thread : ι) (outcome : Nat → Bool) (poolId : UInt32)
    (key : List UInt8) (probes : List Nat) (run : DeviceRun ι) (buf : Region) : Prop :=
  ∃ result after, (kvRangeExistProbes store poolId key probes buf).run
      (answerWith store thread outcome) run = some (result, after) ∧
    run.operations ≤ after.operations ∧
    (SomeFails outcome run.operations after.operations ↔
      QueryFails store run.store.media outcome poolId key probes run.operations buf ∨
        ReadFails store run.store.media outcome poolId key probes run.operations buf) ∧
    ((∃ code, result = .error code ∧ code ≠ .objectNotFound) ↔
      QueryFails store run.store.media outcome poolId key probes run.operations buf)

/-- A loop over no address reports no object, and asks for nothing. -/
theorem loopReports_nil (run : DeviceRun ι) (buf : Region) :
    LoopReports store thread outcome poolId key [] run buf := by
  have noQuery : ¬QueryFails store run.store.media outcome poolId key [] run.operations buf := by
    rintro ⟨_, _, _, reached, _⟩
    exact not_comesTo_nil reached
  have noRead : ¬ReadFails store run.store.media outcome poolId key [] run.operations buf := by
    rintro ⟨_, _, _, reached, _⟩
    exact not_comesTo_nil reached
  refine ⟨.error .objectNotFound, run, rfl, Nat.le_refl _, ?_, ?_⟩
  · exact iff_of_false (not_someFails _) (not_or.mpr ⟨noQuery, noRead⟩)
  · refine iff_of_false ?_ noQuery
    rintro ⟨code, same, other⟩
    cases same
    exact other rfl

section Address

variable {run : DeviceRun ι} {lba : Nat} {rest : List Nat} {buf : Region}

/-- A query that fails ends the loop with its error. -/
theorem loopReports_unasked (fails : outcome run.operations = false) :
    LoopReports store thread outcome poolId key (lba :: rest) run buf := by
  have ends : passProbe store run.store.media outcome poolId key lba run.operations buf =
      none := if_pos fails
  rw [LoopReports, queryFails_ends ends]
  refine ⟨.error .internalFailure, run.counted (run.operations + 1), ?_, Nat.le_succ _, ?_, ?_⟩
  · simp only [kvRangeExistProbes, Program.run_bind, run_kvRangeExists_with, fails, if_true,
      Option.bind_some, Program.run_pure]
  · exact iff_of_true ((someFails_next (Nat.lt_succ_self _)).mpr (Or.inl fails)) (Or.inl fails)
  · exact iff_of_true ⟨_, rfl, by decide⟩ fails

/-- A free window is passed over after one operation. -/
theorem loopReports_free (asked : ¬outcome run.operations = false)
    (free : windowFree store run.store.media lba = true)
    (further : LoopReports store thread outcome poolId key rest
      (run.counted (run.operations + 1)) buf) :
    LoopReports store thread outcome poolId key (lba :: rest) run buf := by
  have passes : passProbe store run.store.media outcome poolId key lba run.operations buf =
      some (run.operations + 1, buf) := by
    rw [passProbe, if_neg asked, if_pos free]
  have empty : (run.store.media.rangeExists ⟨lba, store.maxSearchRange⟩).length = 0 :=
    of_decide_eq_true free
  have mapped : ¬windowFree store run.store.media lba = false := by
    rw [free]
    exact Bool.noConfusion
  obtain ⟨result, after, ran, grows, fails, errs⟩ := further
  simp only [DeviceRun.counted_operations, DeviceRun.counted_store] at grows fails errs
  have queries := (@queryFails_passed _ _ _ _ _ _ _ _ rest _ _ passes).trans
    (or_iff_right asked)
  have reads := (@readFails_passed _ _ _ _ _ _ _ _ rest _ _ passes).trans
    (or_iff_right fun read => mapped read.2.1)
  rw [LoopReports, queries, reads]
  refine ⟨result, after, ?_, Nat.le_of_succ_le grows, ?_, errs⟩
  · simp only [kvRangeExistProbes, Program.run_bind, run_kvRangeExists_with, if_neg asked,
      if_pos empty, Option.bind_some, ran]
  · rw [someFails_next grows, or_iff_right asked]
    exact fails

/-- At a mapped window the second operation is the read. -/
theorem read_failing (asked : ¬outcome run.operations = false)
    (mapped : windowFree store run.store.media lba = false) :
    (outcome run.operations = true ∧ windowFree store run.store.media lba = false ∧
      outcome (run.operations + 1) = false) ↔ outcome (run.operations + 1) = false := by
  constructor
  · rintro ⟨_, _, fails⟩
    exact fails
  · intro fails
    exact ⟨Bool.eq_true_of_not_eq_false asked, mapped, fails⟩

/-- The loop ends where the buffer has the key, with no error of the device. -/
theorem loopReports_found (asked : ¬outcome run.operations = false)
    (mapped : windowFree store run.store.media lba = false)
    (found : headerMatches (comparedBuffer store run.store.media outcome lba run.operations buf)
      poolId key = true) :
    LoopReports store thread outcome poolId key (lba :: rest) run buf := by
  have taken : ¬windowFree store run.store.media lba = true := by
    rw [mapped]
    exact Bool.noConfusion
  rw [LoopReports, run_probe_mapped asked mapped]
  obtain ⟨compared, same⟩ : ∃ compared,
    comparedBuffer store run.store.media outcome lba run.operations buf = compared := ⟨_, rfl⟩
  rw [same] at found ⊢
  have ends : passProbe store run.store.media outcome poolId key lba run.operations buf =
      none := by
    rw [passProbe, if_neg asked, if_neg taken, same, if_pos found]
  obtain ⟨result, after, ran, made, expired⟩ := @run_kvExpire_queue_with ι store thread
    outcome (readHeader compared) lba (run.counted (run.operations + 2))
  rw [DeviceRun.counted_operations] at made
  have fails : SomeFails outcome run.operations after.operations ↔
      outcome (run.operations + 1) = false := by
    rw [made, someFails_next (by omega), or_iff_right asked, someFails_next (by omega),
      or_iff_left (not_someFails _)]
  rw [queryFails_ends ends, readFails_ends ends, read_failing asked mapped, or_iff_right asked,
    if_pos found]
  rcases expired with rfl | rfl
  · refine ⟨.ok (readHeader compared), after, ?_, by omega, fails, iff_of_false ?_ asked⟩
    · simp only [Program.run_bind, ran, Option.bind_some, Program.run_pure]
    · rintro ⟨code, impossible, _⟩
      cases impossible
  · refine ⟨.error .objectNotFound, after, ?_, by omega, fails, iff_of_false ?_ asked⟩
    · simp only [Program.run_bind, ran, Option.bind_some, Program.run_pure]
    · rintro ⟨code, reported, other⟩
      cases reported
      exact other rfl

/-- A mapped window with another key is passed over after two operations. -/
theorem loopReports_passed (asked : ¬outcome run.operations = false)
    (mapped : windowFree store run.store.media lba = false)
    (differs : ¬headerMatches (comparedBuffer store run.store.media outcome lba run.operations
      buf) poolId key = true)
    (further : LoopReports store thread outcome poolId key rest
      (run.counted (run.operations + 2))
      (comparedBuffer store run.store.media outcome lba run.operations buf)) :
    LoopReports store thread outcome poolId key (lba :: rest) run buf := by
  have taken : ¬windowFree store run.store.media lba = true := by
    rw [mapped]
    exact Bool.noConfusion
  have passes : passProbe store run.store.media outcome poolId key lba run.operations buf =
      some (run.operations + 2,
        comparedBuffer store run.store.media outcome lba run.operations buf) := by
    rw [passProbe, if_neg asked, if_neg taken, if_neg differs]
  obtain ⟨result, after, ran, grows, fails, errs⟩ := further
  simp only [DeviceRun.counted_operations, DeviceRun.counted_store] at grows fails errs
  rw [LoopReports, run_probe_mapped asked mapped, queryFails_passed passes,
    readFails_passed passes, read_failing asked mapped, or_iff_right asked, if_neg differs]
  refine ⟨result, after, ran, by omega, ?_, errs⟩
  rw [someFails_next (by omega), or_iff_right asked, someFails_next (by omega), fails]
  exact or_left_comm

end Address

/-- The loop over some addresses. Induction follows the addresses: the first one ends the loop
or is passed over. -/
theorem run_kvRangeExistProbes_with (probes : List Nat) (run : DeviceRun ι) (buf : Region) :
    LoopReports store thread outcome poolId key probes run buf := by
  induction probes generalizing run buf with
  | nil => exact loopReports_nil run buf
  | cons lba rest inductionHypothesis =>
    by_cases fails : outcome run.operations = false
    · exact loopReports_unasked fails
    · cases free : windowFree store run.store.media lba with
      | true => exact loopReports_free fails free (inductionHypothesis _ buf)
      | false =>
        by_cases found : headerMatches (comparedBuffer store run.store.media outcome lba
            run.operations buf) poolId key = true
        · exact loopReports_found fails free found
        · exact loopReports_passed fails free found (inductionHypothesis _ _)

/-- A call whose arguments are refused makes no operation of the device. -/
theorem run_kvExists_refused {run : DeviceRun ι} (buf : Region)
    (refused : ¬keyAccepted run.store poolId key = true) :
    (kvExists store poolId key (some buf)).run (answerWith store thread outcome) run =
      some (.error .invalidInput, run) := by
  have rejects : (!decide (poolStatus run.store.inUse run.store.deleted poolId = .poolInUse ∨
      poolId = 0xFFFFFFFF) || !kvValidateKey key) = true := by
    rw [← Bool.not_and]
    rw [keyAccepted] at refused
    rw [Bool.not_eq_true] at refused
    rw [refused]
    rfl
  simp only [kvExists, Program.run_bind, run_kvValidatePoolId_with, Option.bind_some, rejects,
    if_true, Program.run_pure]

/-- A call whose arguments are accepted ends as its loop does. -/
theorem run_kvExists_accepted {run : DeviceRun ι} (buf : Region)
    (accepted : keyAccepted run.store poolId key = true) :
    ∃ result after, (kvExists store poolId key (some buf)).run (answerWith store thread outcome)
        run = some (result, after) ∧
      (SomeFails outcome run.operations after.operations ↔
        QueryFails store run.store.media outcome poolId key (store.probes poolId key)
            run.operations buf ∨
          ReadFails store run.store.media outcome poolId key (store.probes poolId key)
            run.operations buf) ∧
      ((∃ code, result = .error code) ↔
        QueryFails store run.store.media outcome poolId key (store.probes poolId key)
          run.operations buf) := by
  have takes : (!decide (poolStatus run.store.inUse run.store.deleted poolId = .poolInUse ∨
      poolId = 0xFFFFFFFF) || !kvValidateKey key) = false := by
    rw [← Bool.not_and]
    rw [keyAccepted] at accepted
    rw [accepted]
    rfl
  obtain ⟨ended, after, ran, _, fails, errs⟩ := @run_kvRangeExistProbes_with ι store thread outcome
    poolId key (store.probes poolId key) run buf
  cases ended with
  | ok hdr =>
    refine ⟨.ok (some (keyInfoOf (some poolId) hdr)), after, ?_, fails, Iff.trans ?_ errs⟩
    · simp only [kvExists, Program.run_bind, run_kvValidatePoolId_with, Option.bind_some, takes,
        Bool.false_eq_true, if_false, ran, Program.run_pure]
    · constructor
      · rintro ⟨code, impossible⟩
        cases impossible
      · rintro ⟨code, impossible, _⟩
        cases impossible
  | error code =>
    by_cases missing : code = .objectNotFound
    · subst missing
      refine ⟨.ok none, after, ?_, fails, Iff.trans ?_ errs⟩
      · simp only [kvExists, Program.run_bind, run_kvValidatePoolId_with, Option.bind_some, takes,
          Bool.false_eq_true, if_false, ran, Program.run_pure]
      · constructor
        · rintro ⟨code, impossible⟩
          cases impossible
        · rintro ⟨code, same, other⟩
          cases same
          exact absurd rfl other
    · refine ⟨.error code, after, ?_, fails,
        (iff_of_true ⟨code, rfl⟩ ⟨code, rfl, missing⟩).trans errs⟩
      simp only [kvExists, Program.run_bind, run_kvValidatePoolId_with, Option.bind_some, takes,
        Bool.false_eq_true, if_false, ran, Program.run_pure]

end Runs

/-- A call reports an error when an operation of the device that it makes fails. -/
def ReportsErrors (store : NvmKvStore) (thread : ι) (outcome : Nat → Bool) (run : DeviceRun ι)
    (poolId : UInt32) (key : List UInt8) (buf : Region) : Prop :=
  ∃ result after, (kvExists store poolId key (some buf)).run (answerWith store thread outcome)
      run = some (result, after) ∧
    (SomeFails outcome run.operations after.operations → ∃ code, result = .error code)

/-- Errors of the device reach the caller of `kv_exists` just when no read of the call fails, or
a query of it fails too. -/
theorem exists_errors_reported_iff (store : NvmKvStore) (thread : ι) (outcome : Nat → Bool)
    (run : DeviceRun ι) (poolId : UInt32) (key : List UInt8) (buf : Region) :
    ReportsErrors store thread outcome run poolId key buf ↔
      (keyAccepted run.store poolId key = true →
        ¬ReadFails store run.store.media outcome poolId key (store.probes poolId key)
            run.operations buf ∨
          QueryFails store run.store.media outcome poolId key (store.probes poolId key)
            run.operations buf) := by
  by_cases accepted : keyAccepted run.store poolId key = true
  · obtain ⟨result, after, ran, fails, errs⟩ := @run_kvExists_accepted ι store thread outcome poolId
      key run buf accepted
    constructor
    · rintro ⟨result', after', ran', reported⟩ _
      rw [ran] at ran'
      cases ran'
      rw [fails, errs] at reported
      by_cases read : ReadFails store run.store.media outcome poolId key (store.probes poolId key)
        run.operations buf
      · exact Or.inr (reported (Or.inr read))
      · exact Or.inl read
    · intro condition
      refine ⟨result, after, ran, ?_⟩
      rw [fails, errs]
      rintro (query | read)
      · exact query
      · exact (condition accepted).resolve_left (not_not_intro read)
  · refine iff_of_true ?_ fun impossible => absurd impossible accepted
    exact ⟨_, run, run_kvExists_refused buf accepted, fun _ => ⟨_, rfl⟩⟩

/-- The operations made only grow. -/
theorem comesTo_le {store : NvmKvStore} {media : Media} {outcome : Nat → Bool} {poolId : UInt32}
    {key : List UInt8} {probes : List Nat} {operations lba made : Nat} {buf found : Region}
    (reached : ComesTo store media outcome poolId key probes operations buf lba made found) :
    operations ≤ made := by
  induction reached with
  | here => exact Nat.le_refl _
  | later passed _ inductionHypothesis =>
    unfold passProbe at passed
    split_ifs at passed
    · cases passed
      omega
    · cases passed
      omega

/-- The device's second operation fails, which is the read of the sector with the pair: the pair
is reported to be missing. -/
theorem failed_read_not_reported :
    ¬ReportsErrors NvmKvStore.terabyteStore () (fun operation => operation ≠ 1)
      ⟨openedTerabyte twoSectorMedia, 0, []⟩ 0 [97] fun _ => 0 := by
  rintro ⟨result, after, ran, reported⟩
  obtain ⟨result', after', ran', fails, errs⟩ := @run_kvExists_accepted Unit
    NvmKvStore.terabyteStore () (fun operation => operation ≠ 1) 0 [97]
    ⟨openedTerabyte twoSectorMedia, 0, []⟩ (fun _ => 0) rfl
  rw [ran] at ran'
  cases ran'
  rw [fails, errs] at reported
  obtain ⟨later, probes⟩ := probes_head NvmKvStore.terabyteStore 0 [97]
  rw [probes] at reported
  have taken : windowFree NvmKvStore.terabyteStore twoSectorMedia sectorLba = false := by
    apply windowFree_mapped
    rw [twoSectorMedia, if_pos rfl]
    exact Option.some_ne_none _
  obtain ⟨lba, made, found, reached, failed⟩ := reported (Or.inr
    ⟨sectorLba, 0, fun _ => 0, .here, rfl, taken, rfl⟩)
  have second : made = 1 := by simpa using failed
  cases reached with
  | here => cases second
  | later passed reached =>
    have behind := comesTo_le reached
    have mapped : ¬windowFree NvmKvStore.terabyteStore twoSectorMedia sectorLba = true := by
      rw [taken]
      exact Bool.noConfusion
    change passProbe NvmKvStore.terabyteStore twoSectorMedia _ 0 [97] sectorLba 0 _ = _ at passed
    rw [passProbe, if_neg (by decide), if_neg mapped] at passed
    split_ifs at passed
    cases passed
    omega

end Nvmkv
