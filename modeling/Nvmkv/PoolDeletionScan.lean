import Nvmkv.PoolDeletion
import Nvmkv.StoredPairs

/-!
# One scan of the pool deletion thread

`delete_pool` goes over the mapped ranges in portions and collects the ranges of
its pools in batches that do not end where the portions do. What a scan trims
does not depend on the two sizes: it is every range that is not skipped. What it
returns does. The return variable keeps what was stored last, and that is the
number of ranges in the portion, the verdict on a skipped range or the success of
a batch.

The proofs follow the two loops. An account of the batches, `Scanned`, says what
the device still owes, and the value returned is a fold over the last portion.
-/

namespace Nvmkv

variable {ι : Type} (store : NvmKvStore)

/-- The header at the start of a range. -/
def rangeHeader (media : Media) (range : NvmBlockRange) : NvmKvHeader :=
  storedHeader store media range.startLba

/-- Whether a scan for a pool skips a range with this header. -/
def scanSkips (headers : NvmBlockRange → NvmKvHeader) (poolId : Option Nat)
    (range : NvmBlockRange) : Bool :=
  if store.validatesPoolIdOnMedia then NvmKvStore.skipsPool poolId (headers range).poolId
  else poolId = none ∧ range.startLba &&& store.poolMask = defaultPoolId.toNat

/-- What the return variable holds after a range, when no vectors are left over. -/
def scanCode (headers : NvmBlockRange → NvmKvHeader) (clock : Nat) (poolId : Option Nat)
    (retCode : Nat) (range : NvmBlockRange) : Nat :=
  if scanSkips store headers poolId range then
    if store.validatesPoolIdOnMedia then if (headers range).expiredAt clock then 1 else 0
    else retCode
  else 0

/-- The vectors that a scan of some ranges trims. -/
def scanTrims (headers : NvmBlockRange → NvmKvHeader) (poolId : Option Nat)
    (ranges : List NvmBlockRange) : List NvmIovec :=
  (ranges.filter fun range => !scanSkips store headers poolId range).map (poolRangeIovec store)

/-- The state with another device content. -/
def SystemState.onMedia (state : SystemState ι) (media : Media)
    (log : List (ι × List NvmIovec)) : SystemState ι :=
  { state with store := { state.store with media := media, log := log } }

/-- New media and log are those that were given. -/
@[simp] theorem SystemState.onMedia_media (state : SystemState ι) (media : Media)
    (log : List (ι × List NvmIovec)) : (state.onMedia media log).store.media = media := rfl

/-- They do not change the time. -/
@[simp] theorem SystemState.onMedia_clock (state : SystemState ι) (media : Media)
    (log : List (ι × List NvmIovec)) : (state.onMedia media log).store.clock = state.store.clock :=
  rfl

/-- Nor the manager of the pools. -/
@[simp] theorem SystemState.onMedia_mgr (state : SystemState ι) (media : Media)
    (log : List (ι × List NvmIovec)) : (state.onMedia media log).mgr = state.mgr := rfl

/-- A range's vector covers the sectors of the range. -/
theorem poolRangeIovec_covers {range : NvmBlockRange} {lba : Nat} :
    Media.Covers store.sectorSize (poolRangeIovec store range) lba ↔ range.Covers lba := by
  rw [Media.Covers, poolRangeIovec, NvmBlockRange.Covers]
  dsimp only
  rw [Nat.mul_div_cancel _ store.sector_positive]

/-- What a scan has done so far: of the vectors `owed` to a device with content
`start`, those of `iovec` are still to be applied and the others have been, in full
batches. -/
structure Scanned (start : Media) (owed : List NvmIovec) (media : Media)
    (iovec : List NvmIovec) : Prop where
  applied : media.applyBatch store.sectorSize iovec = start.applyBatch store.sectorSize owed
  among : ∀ vector ∈ iovec, vector ∈ owed
  frame : ∀ l, (∀ vector ∈ owed, ¬Media.Covers store.sectorSize vector l) → media l = start l
  length : iovec.length = owed.length % store.capabilities.nvmMaxNumIovs

namespace Scanned

variable {store} {start media later : Media} {owed iovec rest more : List NvmIovec}

/-- Vectors that are only collected leave the media. -/
theorem collected (room : iovec.length < store.capabilities.nvmMaxNumIovs) :
    Scanned store start iovec start iovec :=
  ⟨rfl, fun _ member => member, fun _ _ => rfl, (Nat.mod_eq_of_lt room).symm⟩

/-- A batch that is full is applied, and none is collected then. -/
theorem batch (full : iovec.length = store.capabilities.nvmMaxNumIovs) :
    Scanned store start iovec (start.applyBatch store.sectorSize iovec) [] where
  applied := rfl
  among := fun _ absent => nomatch absent
  frame := fun _ outside => Media.applyBatch_frame outside
  length := by rw [full, Nat.mod_self, List.length_nil]

/-- An account of what came first and one of what came then. -/
theorem trans (first : Scanned store start owed media iovec)
    (second : Scanned store media (iovec ++ more) later rest) :
    Scanned store start (owed ++ more) later rest where
  applied := by
    rw [second.applied, Media.applyBatch_append, first.applied, Media.applyBatch_append]
  among := by
    intro vector member
    rcases List.mem_append.mp (second.among vector member) with earlier | further
    · exact List.mem_append_left _ (first.among vector earlier)
    · exact List.mem_append_right _ further
  frame := by
    intro l outside
    rw [second.frame l, first.frame l]
    · exact fun vector member => outside vector (List.mem_append_left _ member)
    · intro vector member
      rcases List.mem_append.mp member with earlier | further
      · exact outside vector (List.mem_append_left _ (first.among vector earlier))
      · exact outside vector (List.mem_append_right _ further)
  length := by
    rw [second.length, List.length_append, List.length_append, first.length, Nat.mod_add_mod]

end Scanned

section Runs

variable (thread : ι)

/-- A program of the store runs on the store alone. -/
theorem run_liftStore {α : Type} (program : StoreM α) (state : SystemState ι) :
    (liftStore program).run (answerSystem store thread) state =
      (program.run (answer store thread) state.store).map fun reached =>
        (reached.1, { state with store := reached.2 }) := by
  induction program generalizing state with
  | done result => rfl
  | call op next inductionHypothesis =>
    rw [liftStore, Program.run_call, Program.run_call, answerSystem]
    cases answer store thread op state.store with
    | none => rfl
    | some answered => exact inductionHypothesis answered.1 _

/-- A batch that the scan hands over is applied and logged. -/
@[simp] theorem run_liftStore_nvmWritev (iovec : List NvmIovec) (state : SystemState ι) :
    (liftStore (nvmWritev iovec)).run (answerSystem store thread) state =
      some (.ok (), state.onMedia (state.store.media.applyBatch store.sectorSize iovec)
        (state.store.log ++ [(thread, iovec)])) := by
  rw [run_liftStore, run_nvmWritev]
  rfl

/-- The header of a pair tells its pool and whether it has expired. -/
theorem run_isValidForDelIn {state : SystemState ι} {keyLoc : Nat} (poolId : Nat)
    (isKey : (storedHeader store state.store.media keyLoc).isKey = true) :
    (isValidForDelIn store keyLoc poolId).run (answerSystem store thread) state =
      some (.ok (if (storedHeader store state.store.media keyLoc).expiredAt state.store.clock
        then 1 else 0, (storedHeader store state.store.media keyLoc).poolId), state) := by
  simp only [isValidForDelIn, Program.run_bind, run_liftStore, run_nvmReadv_sector, Option.map_some,
    Option.bind_some, List.headD_cons, readHeader_slotBuffer, isKey, Bool.not_true,
    Bool.false_eq_true, if_false, run_currentTime, Program.run_pure]

variable {headers : NvmBlockRange → NvmKvHeader} {poolId : Option Nat}

/-- A range is skipped as `scanSkips` says, and the return variable holds what
`scanCode` says if it is. -/
theorem run_skipRange {state : SystemState ι} {range : NvmBlockRange} (scan : ScanState)
    (header : rangeHeader store state.store.media range = headers range)
    (isKey : (headers range).isKey = true) :
    ∃ after : ScanState, after.iovec = scan.iovec ∧
      (scanSkips store headers poolId range = true → ∀ tracked,
        (scan.iovec = [] → scan.retCode = tracked) →
          scan.iovec = [] →
            after.retCode = scanCode store headers state.store.clock poolId tracked range) ∧
      (skipRange store poolId range scan).run (answerSystem store thread) state =
        some (.ok (scanSkips store headers poolId range, after), state) := by
  unfold skipRange scanSkips scanCode
  rw [rangeHeader] at header
  cases validates : store.validatesPoolIdOnMedia with
  | true =>
    have read := run_isValidForDelIn store thread scan.foundPoolId (header ▸ isKey)
    rw [header] at read
    refine ⟨⟨if (headers range).expiredAt state.store.clock then 1 else 0,
      (headers range).poolId, scan.iovec⟩, rfl, ?_, ?_⟩
    · intro skips tracked _ _
      simp only [if_true] at skips
      simp only [scanSkips, validates, if_true, skips]
    · simp only [if_true, Program.run_bind, read, Option.bind_some, Program.run_pure]
  | false =>
    refine ⟨scan, rfl, ?_, ?_⟩
    · intro skips tracked same empty
      simp only [Bool.false_eq_true, if_false] at skips
      simp only [scanSkips, validates, Bool.false_eq_true, if_false, skips, if_true]
      exact same empty
    · simp only [Bool.false_eq_true, if_false, Program.run_pure]

/-- A range that is skipped leaves the vectors of a scan. -/
theorem scanTrims_skipped {range : NvmBlockRange} {rest : List NvmBlockRange}
    (skips : scanSkips store headers poolId range = true) :
    scanTrims store headers poolId (range :: rest) = scanTrims store headers poolId rest := by
  rw [scanTrims, List.filter_cons, skips]
  rfl

/-- A range that is not skipped adds its vector, and its verdict is success. -/
theorem scanTrims_kept {range : NvmBlockRange} {rest : List NvmBlockRange}
    (kept : scanSkips store headers poolId range = false) :
    scanTrims store headers poolId (range :: rest) =
        poolRangeIovec store range :: scanTrims store headers poolId rest ∧
      ∀ clock tracked, scanCode store headers clock poolId tracked range = 0 := by
  refine ⟨?_, fun clock tracked => ?_⟩
  · rw [scanTrims, List.filter_cons, kept]
    rfl
  · rw [scanCode, kept]
    rfl

/-- Neither the vectors so far nor that of a range cover where a later range starts. -/
theorem covers_no_later {range : NvmBlockRange} {rest : List NvmBlockRange} {iovec : List NvmIovec}
    (apart : ∀ other ∈ rest, range.startLba + range.length < other.startLba)
    (earlier : ∀ vector ∈ iovec, ∀ other ∈ range :: rest,
      ¬Media.Covers store.sectorSize vector other.startLba) :
    ∀ vector ∈ iovec ++ [poolRangeIovec store range], ∀ other ∈ rest,
      ¬Media.Covers store.sectorSize vector other.startLba := by
  intro vector member other listed covers
  rcases List.mem_append.mp member with old | new
  · exact earlier vector old other (List.mem_cons_of_mem _ listed) covers
  · rw [List.mem_singleton.mp new, poolRangeIovec_covers] at covers
    have behind := apart other listed
    have below := covers.2
    omega

section Rounds

variable {range : NvmBlockRange} {rest : List NvmBlockRange} {state : SystemState ι}
  {scan checked : ScanState}

/-- A round of the inner loop that skips its range. -/
theorem run_deletePortion_skipped
    (checks : (skipRange store poolId range scan).run (answerSystem store thread) state =
      some (.ok (true, checked), state)) :
    (deletePortion store poolId (range :: rest) scan).run (answerSystem store thread) state =
      (deletePortion store poolId rest checked).run (answerSystem store thread) state := by
  simp only [deletePortion, Program.run_bind, checks, Option.bind_some]

/-- A round whose range completes a batch, which is handed over. -/
theorem run_deletePortion_handed
    (checks : (skipRange store poolId range scan).run (answerSystem store thread) state =
      some (.ok (false, checked), state))
    (small : range.length * store.sectorSize ≤ store.capabilities.maxTrimSize)
    (full : (checked.iovec ++ [poolRangeIovec store range]).length =
      store.capabilities.nvmMaxNumIovs) :
    (deletePortion store poolId (range :: rest) scan).run (answerSystem store thread) state =
      (deletePortion store poolId rest { checked with retCode := 0, iovec := [] }).run
        (answerSystem store thread) (state.onMedia
          (state.store.media.applyBatch store.sectorSize
            (checked.iovec ++ [poolRangeIovec store range]))
          (state.store.log ++ [(thread, checked.iovec ++ [poolRangeIovec store range])])) := by
  have fits : ¬store.capabilities.maxTrimSize < range.length * store.sectorSize := by omega
  simp only [deletePortion, Program.run_bind, checks, Option.bind_some, if_neg fits, full,
    if_true, run_liftStore_nvmWritev]

/-- A round whose range joins the vectors. -/
theorem run_deletePortion_joined
    (checks : (skipRange store poolId range scan).run (answerSystem store thread) state =
      some (.ok (false, checked), state))
    (small : range.length * store.sectorSize ≤ store.capabilities.maxTrimSize)
    (short : (checked.iovec ++ [poolRangeIovec store range]).length <
      store.capabilities.nvmMaxNumIovs) :
    (deletePortion store poolId (range :: rest) scan).run (answerSystem store thread) state =
      (deletePortion store poolId rest
        { checked with iovec := checked.iovec ++ [poolRangeIovec store range] }).run
          (answerSystem store thread) state := by
  have fits : ¬store.capabilities.maxTrimSize < range.length * store.sectorSize := by omega
  simp only [deletePortion, Program.run_bind, checks, Option.bind_some, if_neg fits,
    if_neg short.ne]

end Rounds

/-- The inner loop over the ranges of a portion. Induction follows the ranges: one
is skipped, joins the vectors, or completes a batch, and the headers of later
ranges stay because no vector covers where they start. -/
theorem run_deletePortion {ranges : List NvmBlockRange} {state : SystemState ι}
    {scan : ScanState} {tracked : Nat}
    (header : ∀ range ∈ ranges, rangeHeader store state.store.media range = headers range)
    (isKey : ∀ range ∈ ranges, (headers range).isKey = true)
    (small : ∀ range ∈ ranges,
      range.length * store.sectorSize ≤ store.capabilities.maxTrimSize)
    (ordered : ranges.Pairwise fun first second =>
      first.startLba + first.length < second.startLba)
    (earlier : ∀ vector ∈ scan.iovec, ∀ range ∈ ranges,
      ¬Media.Covers store.sectorSize vector range.startLba)
    (room : scan.iovec.length < store.capabilities.nvmMaxNumIovs)
    (code : scan.iovec = [] → scan.retCode = tracked) :
    ∃ (after : ScanState) (media : Media) (log : List (ι × List NvmIovec)),
      (deletePortion store poolId ranges scan).run (answerSystem store thread) state =
        some (.ok after, state.onMedia media log) ∧
      Scanned store state.store.media (scan.iovec ++ scanTrims store headers poolId ranges)
        media after.iovec ∧
      (after.iovec = [] → after.retCode =
        ranges.foldl (scanCode store headers state.store.clock poolId) tracked) := by
  induction ranges generalizing state scan tracked with
  | nil =>
    refine ⟨scan, state.store.media, state.store.log, rfl, ?_, code⟩
    rw [scanTrims, List.filter_nil, List.map_nil, List.append_nil]
    exact Scanned.collected room
  | cons range rest inductionHypothesis =>
    obtain ⟨apart, orderedRest⟩ := List.pairwise_cons.mp ordered
    obtain ⟨checked, sameVectors, skippedCode, checks⟩ := @run_skipRange ι store thread
      headers poolId state range scan (header range List.mem_cons_self)
      (isKey range List.mem_cons_self)
    have isKeyRest := fun other member => isKey other (List.mem_cons_of_mem range member)
    have smallRest := fun other member => small other (List.mem_cons_of_mem range member)
    rw [← sameVectors] at earlier room ⊢
    cases skips : scanSkips store headers poolId range with
    | true =>
      rw [skips] at checks
      rw [run_deletePortion_skipped store thread checks, scanTrims_skipped store skips,
        List.foldl_cons]
      exact inductionHypothesis
        (fun other member => header other (List.mem_cons_of_mem _ member)) isKeyRest smallRest
        orderedRest
        (fun vector member other listed =>
          earlier vector member other (List.mem_cons_of_mem _ listed))
        room (fun empty => skippedCode skips tracked code (sameVectors ▸ empty))
    | false =>
      rw [skips] at checks
      have fits := small range List.mem_cons_self
      have earlierRest := covers_no_later store apart earlier
      obtain ⟨trims, codeAfter⟩ := @scanTrims_kept store headers poolId range rest skips
      rw [trims, List.append_cons, List.foldl_cons, codeAfter]
      by_cases full : (checked.iovec ++ [poolRangeIovec store range]).length =
          store.capabilities.nvmMaxNumIovs
      · have batch := @Scanned.batch store state.store.media _ full
        have headerRest : ∀ other ∈ rest, rangeHeader store
            (state.store.media.applyBatch store.sectorSize
              (checked.iovec ++ [poolRangeIovec store range])) other = headers other := by
          intro other member
          rw [← header other (List.mem_cons_of_mem _ member)]
          refine storedHeader_congr ?_
          exact batch.frame _ fun vector listed => earlierRest vector listed other member
        rw [run_deletePortion_handed store thread checks fits full]
        obtain ⟨after, media, log, ran, scanned, finished⟩ := @inductionHypothesis
          (state.onMedia (state.store.media.applyBatch store.sectorSize
            (checked.iovec ++ [poolRangeIovec store range]))
            (state.store.log ++ [(thread, checked.iovec ++ [poolRangeIovec store range])]))
          { checked with retCode := 0, iovec := [] } 0
          headerRest isKeyRest smallRest orderedRest (fun _ absent => nomatch absent)
          store.capabilities.iovsPositive (fun _ => rfl)
        exact ⟨after, media, log, ran, batch.trans scanned, finished⟩
      · have short : (checked.iovec ++ [poolRangeIovec store range]).length <
            store.capabilities.nvmMaxNumIovs := by
          rw [List.length_append, List.length_singleton] at full ⊢
          omega
        rw [run_deletePortion_joined store thread checks fits short]
        exact @inductionHypothesis state
          { checked with iovec := checked.iovec ++ [poolRangeIovec store range] } 0
          (fun other member => header other (List.mem_cons_of_mem _ member)) isKeyRest smallRest
          orderedRest earlierRest short
          (fun empty => absurd empty (List.append_ne_nil_of_right_ne_nil _ (List.cons_ne_nil _ _)))

/-- The ranges of the last portion of a scan. -/
def lastPortion (iter : LogicalIterRanges) (ranges : List NvmBlockRange) : List NvmBlockRange :=
  ranges.drop (ranges.length - ranges.length % iter.nvmMaxNumLogicalIterRanges)

/-- A full portion leaves the last one as it is. -/
theorem lastPortion_drop (iter : LogicalIterRanges) {ranges : List NvmBlockRange}
    (full : iter.nvmMaxNumLogicalIterRanges ≤ ranges.length) :
    lastPortion iter (ranges.drop iter.nvmMaxNumLogicalIterRanges) = lastPortion iter ranges := by
  have rest : (ranges.length - iter.nvmMaxNumLogicalIterRanges) %
      iter.nvmMaxNumLogicalIterRanges = ranges.length % iter.nvmMaxNumLogicalIterRanges :=
    (Nat.mod_eq_sub_mod full).symm
  have below : ranges.length % iter.nvmMaxNumLogicalIterRanges ≤
      ranges.length - iter.nvmMaxNumLogicalIterRanges := by
    rw [← rest]
    exact Nat.mod_le _ _
  have start : iter.nvmMaxNumLogicalIterRanges + (ranges.length -
      iter.nvmMaxNumLogicalIterRanges - ranges.length % iter.nvmMaxNumLogicalIterRanges) =
      ranges.length - ranges.length % iter.nvmMaxNumLogicalIterRanges := by omega
  rw [lastPortion, lastPortion, List.length_drop, rest, List.drop_drop, start]

/-- A portion that is not full is the last one. -/
theorem lastPortion_short (iter : LogicalIterRanges) {ranges : List NvmBlockRange}
    (short : ranges.length < iter.nvmMaxNumLogicalIterRanges) :
    lastPortion iter ranges = ranges := by
  rw [lastPortion, Nat.mod_eq_of_lt short, Nat.sub_self, List.drop_zero]

/-- The value returned when no vectors are left over: that of the last portion, in
which the return variable first held the number of ranges. -/
def lastPortionCode (headers : NvmBlockRange → NvmKvHeader) (clock : Nat) (poolId : Option Nat)
    (portion : List NvmBlockRange) : Nat :=
  portion.foldl (scanCode store headers clock poolId) portion.length

/-- The vectors of a full portion come before those of the rest. -/
theorem scanTrims_split (count : Nat) (ranges : List NvmBlockRange) :
    scanTrims store headers poolId ranges = scanTrims store headers poolId (ranges.take count) ++
      scanTrims store headers poolId (ranges.drop count) := by
  rw [scanTrims, scanTrims, scanTrims, ← List.map_append, ← List.filter_append,
    List.take_append_drop]

/-- What a round of an outer loop is given: a portion of the ranges of an area that pass the
filter, and the area that is left behind them. There the device lists the ranges behind the portion
as long as the sectors do not change. -/
structure TakesPortion (store : NvmKvStore) (thread : ι) (state : SystemState ι)
    (search : NvmBlockRange) (maxRanges filterMask filterPattern : Nat)
    (ranges found : List NvmBlockRange) (left : NvmBlockRange) : Prop where
  listed : (state.store.media.logicalRanges search).filter
    (Media.passesFilter filterMask filterPattern) = ranges
  taken : ranges.take maxRanges = found
  split : found ++ ranges.drop maxRanges = ranges
  calls : (nvmLogicalRanges search maxRanges filterMask filterPattern).run
    (answerSystem store thread) state = some (some (found, left), state)
  behind : search.startLba ≤ left.startLba
  before : ∀ range ∈ found, range.startLba + range.length ≤ left.startLba
  shorter : found ≠ [] → left.length < search.length
  rest : ∀ media : Media, (∀ l, left.startLba ≤ l → media l = state.store.media l) →
    (media.logicalRanges left).filter (Media.passesFilter filterMask filterPattern) =
      ranges.drop maxRanges

/-- The device always answers with a portion. -/
theorem takesPortion {state : SystemState ι} {search : NvmBlockRange}
    {maxRanges filterMask filterPattern : Nat} (positive : 0 < maxRanges)
    {ranges : List NvmBlockRange}
    (listed : (state.store.media.logicalRanges search).filter
      (Media.passesFilter filterMask filterPattern) = ranges) :
    ∃ found left,
      TakesPortion store thread state search maxRanges filterMask filterPattern ranges found
        left := by
  obtain ⟨found, left, called⟩ : ∃ found left, state.store.media.logicalRangeIterator search
      maxRanges filterMask filterPattern = (found, left) := ⟨_, _, rfl⟩
  obtain ⟨behind, _, before, shorter, rest⟩ := Media.logicalRangeIterator_rest positive called
  have taken : ranges.take maxRanges = found := by
    rw [← listed]
    exact (Prod.mk.inj called).1
  refine ⟨found, left, listed, taken, ?_, ?_, behind, before, shorter, fun media same => ?_⟩
  · rw [← taken, List.take_append_drop]
  · rw [nvmLogicalRanges, askSystem, Program.run_perform, answerSystem, called]
  · rw [rest media fun l above _ => same l above, listed]

namespace TakesPortion

variable {store thread} {state : SystemState ι} {search left : NvmBlockRange}
  {maxRanges filterMask filterPattern : Nat} {ranges found : List NvmBlockRange}

/-- A portion that is full has ranges. -/
theorem nonempty
    (_portion : TakesPortion store thread state search maxRanges filterMask filterPattern ranges
      found left) (positive : 0 < maxRanges) (full : ¬found.length < maxRanges) : found ≠ [] := by
  intro empty
  rw [empty] at full
  exact full positive

/-- Behind a portion that is not full there are no ranges. -/
theorem nothing
    (portion : TakesPortion store thread state search maxRanges filterMask filterPattern ranges
      found left) (short : found.length < maxRanges) : ranges.drop maxRanges = [] := by
  rw [← portion.taken, List.length_take] at short
  exact List.drop_of_length_le (by omega)

/-- What comes before the area, and the vectors of ranges of the portion, come before what is left
of it. -/
theorem passed {iovec more : List NvmIovec}
    (portion : TakesPortion store thread state search maxRanges filterMask filterPattern ranges
      found left)
    (earlier : ∀ vector ∈ iovec, ∀ l, Media.Covers store.sectorSize vector l →
      l < search.startLba)
    (among : ∀ vector ∈ more, ∃ range ∈ found, poolRangeIovec store range = vector) :
    ∀ vector ∈ iovec ++ more, ∀ l, Media.Covers store.sectorSize vector l →
      l < left.startLba := by
  intro vector member l covers
  rcases List.mem_append.mp member with old | new
  · exact (earlier vector old l covers).trans_le portion.behind
  · obtain ⟨range, listed, rfl⟩ := among vector new
    have reaches := portion.before range listed
    have below := ((poolRangeIovec_covers store).mp covers).2
    omega

/-- The ranges are in order, and none starts before the area. -/
theorem ordered
    (portion : TakesPortion store thread state search maxRanges filterMask filterPattern ranges
      found left) :
    (ranges.Pairwise fun first second => first.startLba + first.length < second.startLba) ∧
      ∀ range ∈ ranges, search.startLba ≤ range.startLba := by
  rw [← portion.listed]
  exact ⟨Media.logicalRanges_pairwise.filter _,
    fun range member => (Media.isRun_of_mem (List.mem_of_mem_filter member)).above⟩

end TakesPortion

/-- The vectors that a scan of a portion adds are those of ranges of the portion. -/
theorem scanTrims_among {found : List NvmBlockRange} :
    ∀ vector ∈ scanTrims store headers poolId found,
      ∃ range ∈ found, poolRangeIovec store range = vector := by
  intro vector member
  obtain ⟨range, kept, same⟩ := List.mem_map.mp member
  exact ⟨range, List.mem_of_mem_filter kept, same⟩

section Rounds

variable {iter : LogicalIterRanges} {filterMask filterPattern fuel : Nat}
  {search left : NvmBlockRange} {state : SystemState ι} {scan after : ScanState}
  {ranges found : List NvmBlockRange} {media : Media} {log : List (ι × List NvmIovec)}

/-- The last round of a scan: the portion is not full, and vectors that are left over are handed
over. -/
theorem run_deletePoolLoop_last
    (portion : TakesPortion store thread state search iter.nvmMaxNumLogicalIterRanges filterMask
      filterPattern ranges found left)
    (ran : (deletePortion store poolId found { scan with retCode := found.length }).run
      (answerSystem store thread) state = some (.ok after, state.onMedia media log))
    (scanned : Scanned store state.store.media (scan.iovec ++ scanTrims store headers poolId found)
      media after.iovec)
    (code : after.iovec = [] →
      after.retCode = lastPortionCode store headers state.store.clock poolId found)
    (short : found.length < iter.nvmMaxNumLogicalIterRanges) :
    ∃ log : List (ι × List NvmIovec),
      let owed := scan.iovec ++ scanTrims store headers poolId ranges
      (deletePoolLoop store iter poolId filterMask filterPattern (fuel + 1) search scan).run
          (answerSystem store thread) state =
        some (.ok (if owed.length % store.capabilities.nvmMaxNumIovs = 0
            then lastPortionCode store headers state.store.clock poolId (lastPortion iter ranges)
            else 0),
          state.onMedia (state.store.media.applyBatch store.sectorSize owed) log) := by
  have calls := portion.calls
  have all : ranges = found := by
    have split := portion.split
    rw [portion.nothing short, List.append_nil] at split
    exact split.symm
  subst all
  dsimp only
  rw [lastPortion_short iter short]
  by_cases empty : after.iovec = []
  · refine ⟨log, ?_⟩
    have length := scanned.length
    have applied := scanned.applied
    rw [empty, List.length_nil] at length
    rw [empty, Media.applyBatch_nil] at applied
    rw [if_pos length.symm, ← code empty, ← applied]
    simp only [deletePoolLoop, Program.run_bind, calls, Option.bind_some, ran, if_pos short,
      empty, List.length_nil, ne_eq, not_true_eq_false, if_false, Program.run_pure]
  · have nonzero : after.iovec.length ≠ 0 := fun zero => empty (List.length_eq_zero_iff.mp zero)
    refine ⟨log ++ [(thread, after.iovec)], ?_⟩
    rw [if_neg (scanned.length ▸ nonzero), ← scanned.applied]
    simp only [deletePoolLoop, Program.run_bind, calls, Option.bind_some, ran, if_pos short,
      ne_eq, nonzero, not_false_eq_true, if_true, run_liftStore_nvmWritev, Program.run_pure]
    rfl

/-- After a full portion the scan goes on over what is left, whose ranges and headers are as
they were. -/
theorem TakesPortion.scansOn
    (portion : TakesPortion store thread state search iter.nvmMaxNumLogicalIterRanges filterMask
      filterPattern ranges found left)
    (header : ∀ range ∈ ranges, rangeHeader store state.store.media range = headers range)
    (earlier : ∀ vector ∈ scan.iovec, ∀ l, Media.Covers store.sectorSize vector l →
      l < search.startLba)
    (scanned : Scanned store state.store.media (scan.iovec ++ scanTrims store headers poolId found)
      media after.iovec) :
    (∀ vector ∈ after.iovec, ∀ l, Media.Covers store.sectorSize vector l → l < left.startLba) ∧
      (media.logicalRanges left).filter (Media.passesFilter filterMask filterPattern) =
        ranges.drop iter.nvmMaxNumLogicalIterRanges ∧
      ∀ range ∈ ranges.drop iter.nvmMaxNumLogicalIterRanges,
        rangeHeader store media range = headers range := by
  have passed := portion.passed earlier (@scanTrims_among store headers poolId found)
  have agree : ∀ l, left.startLba ≤ l → media l = state.store.media l := by
    intro l above
    exact scanned.frame l fun vector member covers =>
      absurd (passed vector member l covers) (Nat.not_lt.mpr above)
  have listedLeft := portion.rest media agree
  refine ⟨fun vector member => passed vector (scanned.among vector member), listedLeft, ?_⟩
  intro range member
  rw [← header range (List.mem_of_mem_drop member)]
  rw [← listedLeft] at member
  exact storedHeader_congr (agree _ (Media.isRun_of_mem (List.mem_of_mem_filter member)).above)

end Rounds

/-- The whole scan of what is left to iterate over. Induction is on the rounds, and
each full portion takes ranges off what is left. -/
theorem run_deletePoolLoop (iter : LogicalIterRanges) {filterMask filterPattern fuel : Nat}
    {search : NvmBlockRange} {state : SystemState ι} {scan : ScanState}
    {ranges : List NvmBlockRange} (enough : search.length < fuel)
    (listed : (state.store.media.logicalRanges search).filter
      (Media.passesFilter filterMask filterPattern) = ranges)
    (header : ∀ range ∈ ranges, rangeHeader store state.store.media range = headers range)
    (isKey : ∀ range ∈ ranges, (headers range).isKey = true)
    (small : ∀ range ∈ ranges,
      range.length * store.sectorSize ≤ store.capabilities.maxTrimSize)
    (earlier : ∀ vector ∈ scan.iovec, ∀ l, Media.Covers store.sectorSize vector l →
      l < search.startLba)
    (room : scan.iovec.length < store.capabilities.nvmMaxNumIovs) :
    ∃ log : List (ι × List NvmIovec),
      let owed := scan.iovec ++ scanTrims store headers poolId ranges
      (deletePoolLoop store iter poolId filterMask filterPattern fuel search scan).run
          (answerSystem store thread) state =
        some (.ok (if owed.length % store.capabilities.nvmMaxNumIovs = 0
            then lastPortionCode store headers state.store.clock poolId (lastPortion iter ranges)
            else 0),
          state.onMedia (state.store.media.applyBatch store.sectorSize owed) log) := by
  induction fuel generalizing search state scan ranges with
  | zero => exact absurd enough (Nat.not_lt_zero _)
  | succ fuel inductionHypothesis =>
    obtain ⟨found, left, portion⟩ := takesPortion store thread iter.positive listed
    have calls := portion.calls
    obtain ⟨ordered, positive⟩ := portion.ordered
    have among : ∀ range ∈ found, range ∈ ranges := by
      intro range member
      rw [← portion.taken] at member
      exact List.mem_of_mem_take member
    obtain ⟨after, media, log, ran, scanned, code⟩ := @run_deletePortion ι store thread headers
      poolId found state { scan with retCode := found.length } found.length
      (fun range member => header range (among range member))
      (fun range member => isKey range (among range member))
      (fun range member => small range (among range member))
      (by rw [← portion.taken]; exact ordered.sublist (List.take_sublist _ _))
      (fun vector member range inFound covers => absurd (earlier vector member _ covers)
        (Nat.not_lt.mpr (positive range (among range inFound))))
      room (fun _ => rfl)
    by_cases short : found.length < iter.nvmMaxNumLogicalIterRanges
    · exact run_deletePoolLoop_last store thread portion ran scanned code short
    · have full : iter.nvmMaxNumLogicalIterRanges ≤ ranges.length := by
        rw [← portion.taken, List.length_take] at short
        omega
      have less := portion.shorter (portion.nonempty iter.positive short)
      obtain ⟨passed, listedLeft, headerLeft⟩ :=
        portion.scansOn store thread header earlier scanned
      obtain ⟨finalLog, continued⟩ := @inductionHypothesis left (state.onMedia media log) after
        (ranges.drop iter.nvmMaxNumLogicalIterRanges) (by omega) listedLeft headerLeft
        (fun range member => isKey range (List.mem_of_mem_drop member))
        (fun range member => small range (List.mem_of_mem_drop member)) passed
        (scanned.length ▸ Nat.mod_lt _ store.capabilities.iovsPositive)
      refine ⟨finalLog, ?_⟩
      have split : scan.iovec ++ scanTrims store headers poolId ranges =
          scan.iovec ++ scanTrims store headers poolId found ++
            scanTrims store headers poolId (ranges.drop iter.nvmMaxNumLogicalIterRanges) := by
        rw [scanTrims_split store iter.nvmMaxNumLogicalIterRanges ranges, portion.taken,
          List.append_assoc]
      dsimp only at continued ⊢
      rw [SystemState.onMedia_media, Media.applyBatch_append, scanned.applied,
        ← Media.applyBatch_append, ← split, List.length_append, scanned.length,
        Nat.mod_add_mod, ← List.length_append, ← split, lastPortion_drop iter full] at continued
      simp only [deletePoolLoop, Program.run_bind, calls, Option.bind_some, ran, if_neg short]
      exact continued

end Runs

/-- The ranges that the device returns to a scan. -/
def scanRanges (media : Media) (poolId : Option Nat) : List NvmBlockRange :=
  (media.logicalRanges store.usrData).filter
    (Media.passesFilter (if poolId = none then 0 else store.poolMask)
      (match poolId with
      | some id => store.poolIdHash (UInt32.ofNat id)
      | none => 0))

/-- A scan that ends with no vectors left over returns what the return variable
holds from its last portion. It has trimmed everything and yet fails when that is
not zero: in the mode that reads headers when the last range was skipped and its
pair has expired, and in the other one when the whole portion was skipped. -/
def StopsShort (iter : LogicalIterRanges) (headers : NvmBlockRange → NvmKvHeader) (clock : Nat)
    (poolId : Option Nat) (ranges : List NvmBlockRange) : Prop :=
  (ranges.countP fun range => !scanSkips store headers poolId range) %
      store.capabilities.nvmMaxNumIovs = 0 ∧
    if store.validatesPoolIdOnMedia then
      ∃ last, (lastPortion iter ranges).getLast? = some last ∧
        scanSkips store headers poolId last = true ∧ (headers last).expiredAt clock = true
    else
      lastPortion iter ranges ≠ [] ∧
        ∀ range ∈ lastPortion iter ranges, scanSkips store headers poolId range = true

section Codes

variable {store} {headers : NvmBlockRange → NvmKvHeader} {clock : Nat} {poolId : Option Nat}

/-- With headers read, the last range decides alone. -/
theorem lastPortionCode_header (validates : store.validatesPoolIdOnMedia = true)
    (portion : List NvmBlockRange) :
    lastPortionCode store headers clock poolId portion ≠ 0 ↔
      ∃ last, portion.getLast? = some last ∧ scanSkips store headers poolId last = true ∧
        (headers last).expiredAt clock = true := by
  cases ends : portion.getLast? with
  | none =>
    rw [List.getLast?_eq_none_iff.mp ends]
    constructor
    · exact fun impossible => absurd rfl impossible
    · rintro ⟨_, absent, _⟩
      exact nomatch absent
  | some last =>
    obtain ⟨before, split⟩ := List.getLast?_eq_some_iff.mp ends
    have value : lastPortionCode store headers clock poolId portion =
        if scanSkips store headers poolId last then
          if (headers last).expiredAt clock then 1 else 0
        else 0 := by
      rw [lastPortionCode, split, List.foldl_append, List.foldl_cons, List.foldl_nil, scanCode,
        validates, if_pos rfl]
    rw [value]
    constructor
    · intro nonzero
      refine ⟨last, rfl, ?_⟩
      split_ifs at nonzero with skips expired
      · exact ⟨skips, expired⟩
      · exact absurd rfl nonzero
      · exact absurd rfl nonzero
    · rintro ⟨_, same, skips, expired⟩
      obtain rfl := Option.some.inj same
      rw [if_pos skips, if_pos expired]
      exact Nat.one_ne_zero

/-- Without headers, the number of ranges is kept while ranges are skipped. -/
theorem scanCode_foldl (validates : store.validatesPoolIdOnMedia = false)
    (portion : List NvmBlockRange) (retCode : Nat) :
    portion.foldl (scanCode store headers clock poolId) retCode =
      if ∀ range ∈ portion, scanSkips store headers poolId range = true then retCode else 0 := by
  induction portion generalizing retCode with
  | nil => simp
  | cons range rest inductionHypothesis =>
    rw [List.foldl_cons, inductionHypothesis, scanCode, validates]
    by_cases skips : scanSkips store headers poolId range = true
    · simp [skips]
    · simp [skips]

/-- Where addresses tell the pool, a portion that is skipped ends with an error just when it has
ranges and every one of them is skipped. -/
theorem lastPortionCode_hash (validates : store.validatesPoolIdOnMedia = false)
    (portion : List NvmBlockRange) :
    lastPortionCode store headers clock poolId portion ≠ 0 ↔
      portion ≠ [] ∧ ∀ range ∈ portion, scanSkips store headers poolId range = true := by
  rw [lastPortionCode, scanCode_foldl validates]
  split_ifs with skipped
  · rw [ne_eq, List.length_eq_zero_iff]
    exact (and_iff_left skipped).symm
  · exact iff_of_false (fun impossible => absurd rfl impossible) fun both => skipped both.2

/-- The value a scan returns is zero unless it stops short. -/
theorem scan_code_eq_zero (iter : LogicalIterRanges) (ranges : List NvmBlockRange) :
    (if (scanTrims store headers poolId ranges).length % store.capabilities.nvmMaxNumIovs = 0
      then lastPortionCode store headers clock poolId (lastPortion iter ranges) else 0) = 0 ↔
      ¬StopsShort store iter headers clock poolId ranges := by
  have length : (scanTrims store headers poolId ranges).length =
      ranges.countP fun range => !scanSkips store headers poolId range := by
    rw [scanTrims, List.length_map, List.countP_eq_length_filter]
  rw [length, StopsShort]
  by_cases leftOver : (ranges.countP fun range => !scanSkips store headers poolId range) %
      store.capabilities.nvmMaxNumIovs = 0
  · rw [if_pos leftOver, and_iff_right leftOver, ← not_ne_iff, not_iff_not]
    cases validates : store.validatesPoolIdOnMedia with
    | true => simpa using lastPortionCode_header validates (lastPortion iter ranges)
    | false => simpa using lastPortionCode_hash validates (lastPortion iter ranges)
  · rw [if_neg leftOver]
    exact iff_of_true rfl fun both => leftOver both.1

end Codes

/-- A scan of pairs trims the ranges it does not skip, and returns zero unless it
stops short. -/
theorem run_deletePool (thread : ι) (iter : LogicalIterRanges) (poolId : Option Nat)
    (memory : Nat) {state : SystemState ι} {headers : NvmBlockRange → NvmKvHeader}
    {ranges : List NvmBlockRange} (listed : scanRanges store state.store.media poolId = ranges)
    (header : ∀ range ∈ ranges, rangeHeader store state.store.media range = headers range)
    (isKey : ∀ range ∈ ranges, (headers range).isKey = true)
    (small : ∀ range ∈ ranges,
      range.length * store.sectorSize ≤ store.capabilities.maxTrimSize) :
    ∃ (retCode : Nat) (log : List (ι × List NvmIovec)),
      (deletePool store iter poolId memory).run (answerSystem store thread) state =
        some (.ok retCode, state.onMedia (state.store.media.applyBatch store.sectorSize
          (scanTrims store headers poolId ranges)) log) ∧
      (retCode = 0 ↔ ¬StopsShort store iter headers state.store.clock poolId ranges) := by
  unfold scanRanges at listed
  obtain ⟨log, ran⟩ := @run_deletePoolLoop ι store thread headers poolId iter _ _
    (store.usrData.length + 1) store.usrData state ⟨0, memory, []⟩ ranges (Nat.lt_succ_self _)
    listed header isKey small (fun _ absent => nomatch absent) store.capabilities.iovsPositive
  exact ⟨_, log, ran, scan_code_eq_zero iter ranges⟩

end Nvmkv
