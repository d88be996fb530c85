import Nvmkv.DeletionClients
import Nvmkv.PoolScanOutlines

/-!
# The scans of the deletion thread

While the thread scans, the ranges that it has taken for its next batch are confined to pools
that are due, and those that it has still to look at tell by their start whether they are.
A range is taken when its header, or where ids are not hashed its address, tells a pool that
the thread looks for. What the clients do meanwhile leaves both as they are, so a batch trims
no pair of another pool.
-/

namespace Nvmkv

/-- The ranges that the thread has taken and those that it has still to look at were listed, in
the order of their addresses and before what is left to iterate over. The former are confined
to pools that are due. -/
structure DeletionState.Scanning {ι : Type} (store : NvmKvStore) (round : DeletionRound)
    (poolId : Option Nat) (taken ranges : List NvmBlockRange) (left : NvmBlockRange)
    (state : DeletionState ι) : Prop where
  round : state.round = round
  collected : ∀ range ∈ taken, range ∈ state.listed ∧ state.Confined range
  ahead : ∀ range ∈ ranges, (range ∈ state.listed ∧ state.Honest range) ∧
    Media.passesFilter (store.scanMask poolId) (store.scanPattern poolId) range = true
  ordered : (taken ++ ranges).Pairwise fun first second =>
    first.startLba + first.length ≤ second.startLba
  before : ∀ range ∈ taken ++ ranges, range.startLba + range.length ≤ left.startLba

section Scans

variable {ι : Type} [DecidableEq ι] {store : NvmKvStore} {calls : ι → DeletionCall}
  {state reached : DeletionState ι} {round : DeletionRound} {poolId : Option Nat}
  {taken ranges : List NvmBlockRange} {left range : NvmBlockRange}

omit [DecidableEq ι] in
/-- What spares the thread leaves a scan as it is. -/
theorem DeletionState.Spared.scanning (spared : state.Spared reached)
    (scanning : state.Scanning store round poolId taken ranges left) :
    reached.Scanning store round poolId taken ranges left where
  round := spared.round.trans scanning.round
  collected := by
    intro range member
    obtain ⟨listed, confined⟩ := scanning.collected range member
    exact ⟨spared.listed.symm ▸ listed, spared.confined range listed confined⟩
  ahead := by
    intro range member
    obtain ⟨⟨listed, honest⟩, passes⟩ := scanning.ahead range member
    exact ⟨⟨spared.listed.symm ▸ listed, spared.honest range listed honest⟩, passes⟩
  ordered := scanning.ordered
  before := scanning.before

/-- Searching calls of the thread leave it what spared steps leave it. -/
theorem ignores_spared {held : DeletionState ι → Prop}
    (kept : ∀ {before after : DeletionState ι}, before.Spared after → held before → held after) :
    (deletionStoreDiscipline store calls).Ignores (deletionStoreAnswer store calls) none
      StoreOp.Searches held :=
  ignores_deletion_searches (fun _ _ _ _ relied holds => kept (relied rfl) holds)
    fun spared _ holds => kept spared holds

/-- The thread reads the sector at the start of a range: when a header there tells a pool that
it looks for, or none is there, the range is confined. -/
theorem outline_rangeRead (target : round.Target poolId) :
    (deletionSystemDiscipline store calls).Outline (deletionSystemAnswer store calls) none
      (liftStore (nvmReadv store
        [⟨poolBuffer fun _ => 0, store.sectorSize, range.startLba, .write⟩]))
      (DeletionState.Scanning store round poolId taken (range :: ranges) left)
      (EndsWith (fun state => state.round = round) fun read state =>
        state.Scanning store round poolId taken (range :: ranges) left ∧
          (((readHeader (read.2.headD fun _ => 0)).isKey = true → NvmKvStore.skipsPool poolId
            (readHeader (read.2.headD fun _ => 0)).poolId = false) → state.Confined range)) := by
  refine outline_liftStore ?_
  have ignores := @ignores_spared _ _ store calls
    (DeletionState.Scanning store round poolId taken (range :: ranges) left)
    fun spared => spared.scanning
  have read : (deletionStoreDiscipline store calls).Outline (deletionStoreAnswer store calls) none
      (preadv [⟨poolBuffer fun _ => 0, store.sectorSize, range.startLba, .write⟩])
      (DeletionState.Scanning store round poolId taken (range :: ranges) left)
      fun answered state => state.Scanning store round poolId taken (range :: ranges) left ∧
        ∀ buffers, answered = some buffers →
          ((readHeader (buffers.headD fun _ => 0)).isKey = true → NvmKvStore.skipsPool poolId
            (readHeader (buffers.headD fun _ => 0)).poolId = false) → state.Confined range := by
    refine Discipline.Outline.perform ignores.stable fun state invariant scanning => ?_
    obtain ⟨safe, answered⟩ := ignores.kept
      (show StoreOp.Searches (.readv _) from .inl trivial) invariant scanning
    refine ⟨safe, fun buffers reached allowed reply => ?_⟩
    obtain ⟨kept, relied, still⟩ := answered allowed reply
    refine ⟨kept, relied, still, fun contents some told => ?_⟩
    obtain ⟨after, made, rfl⟩ := deletionStoreAnswer_eq reply
    obtain ⟨same, _⟩ := Prod.mk.inj (Option.some.inj made)
    obtain rfl : _ = contents := Option.some.inj (same.trans some)
    have header : readHeader ((state.system.store.media.readBuffers store.sectorSize
        [⟨poolBuffer fun _ => 0, store.sectorSize, range.startLba, .write⟩]).headD fun _ => 0) =
        storedHeader store state.system.store.media range.startLba := by
      rw [← readHeader_slotBuffer store state.system.store.media (fun _ => 0) range.startLba]
      simp only [poolBuffer, Media.readBuffers, Media.fillBuffers, Region.drop_zero, slotBuffer,
        List.headD_cons]
    rw [header] at told
    have honest := (scanning.ahead range List.mem_cons_self).1.2
    have sought : state.round.Target poolId := scanning.round ▸ target
    exact invariant.confined_header sought honest told
  unfold nvmReadv
  refine Discipline.Outline.ite (fun _ => fun _ _ holds => holds.round) fun _ => ?_
  refine Discipline.Outline.ite (fun _ => fun _ _ holds => holds.round) fun _ => ?_
  refine Discipline.Outline.bind read fun answered => ?_
  cases answered with
  | none => exact fun _ _ holds => holds.1.round
  | some buffers => exact fun _ _ holds => ⟨holds.1, holds.2 buffers rfl⟩

/-- The pool id that is found there decides for the thread. -/
theorem outline_isValidForDelIn (target : round.Target poolId) (found : Nat) :
    (deletionSystemDiscipline store calls).Outline (deletionSystemAnswer store calls) none
      (isValidForDelIn store range.startLba found)
      (DeletionState.Scanning store round poolId taken (range :: ranges) left)
      (EndsWith (fun state => state.round = round) fun verdict state =>
        state.Scanning store round poolId taken (range :: ranges) left ∧
          (NvmKvStore.skipsPool poolId verdict.2 = false → state.Confined range)) := by
  unfold isValidForDelIn
  refine Discipline.Outline.bind (outline_rangeRead target) fun read => ?_
  rcases read with code | ⟨bytes, buffers⟩
  · exact fun _ _ failed => failed
  refine Discipline.Outline.ite (fun noKey => ?_) fun isKey => ?_
  · intro state _ holds
    refine ⟨holds.1, fun _ => holds.2 fun key => ?_⟩
    rw [key] at noKey
    exact Bool.noConfusion noKey
  · have ignores := @ignores_spared _ _ store calls
      (fun state => state.Scanning store round poolId taken (range :: ranges) left ∧
        (NvmKvStore.skipsPool poolId (readHeader (buffers.headD fun _ => 0)).poolId = false →
          state.Confined range))
      fun spared holds => ⟨spared.scanning holds.1, fun told => spared.confined range
        (holds.1.ahead range List.mem_cons_self).1.1 (holds.2 told)⟩
    have asked : (deletionStoreDiscipline store calls).Outline (deletionStoreAnswer store calls)
        none currentTime _ _ := ignores.outline (Program.Calls.perform (.inl trivial))
    refine Discipline.Outline.bind ((outline_liftStore asked).strengthen ?_) fun time => ?_
    · exact fun _ _ holds => ⟨holds.1, fun told => holds.2 fun _ => told⟩
    · exact fun _ _ holds => holds

/-- A range that is taken is confined: its header or its address has told a pool that the thread
looks for. A range that is skipped is only left out. -/
theorem outline_skipRange (target : round.Target poolId) {scan : ScanState} :
    (deletionSystemDiscipline store calls).Outline (deletionSystemAnswer store calls) none
      (skipRange store poolId range scan)
      (DeletionState.Scanning store round poolId taken (range :: ranges) left)
      (EndsWith (fun state => state.round = round) fun verdict state =>
        verdict.2.iovec = scan.iovec ∧
          state.Scanning store round poolId (if verdict.1 = true then taken else taken ++ [range])
            ranges left) := by
  have decided : ∀ {skips : Bool} {state : DeletionState ι},
      state.Scanning store round poolId taken (range :: ranges) left →
      (skips = false → state.Confined range) →
      state.Scanning store round poolId (if skips = true then taken else taken ++ [range])
        ranges left := by
    intro skips state scanning confined
    have listed := (scanning.ahead range List.mem_cons_self).1.1
    cases skips with
    | true =>
      have fewer : (taken ++ ranges).Sublist (taken ++ range :: ranges) :=
        List.Sublist.append_left (List.sublist_cons_self range ranges) taken
      exact ⟨scanning.round, scanning.collected,
        fun other member => scanning.ahead other (List.mem_cons_of_mem range member),
        scanning.ordered.sublist fewer, fun other member =>
          scanning.before other (fewer.subset member)⟩
    | false =>
      have same : taken ++ [range] ++ ranges = taken ++ range :: ranges := by
        rw [List.append_assoc, List.singleton_append]
      refine ⟨scanning.round, ?_,
        fun other member => scanning.ahead other (List.mem_cons_of_mem range member), ?_, ?_⟩
      · intro other member
        rcases List.mem_append.mp member with earlier | here
        · exact scanning.collected other earlier
        · rw [List.mem_singleton.mp here]
          exact ⟨listed, confined rfl⟩
      · rw [if_neg Bool.false_ne_true, same]
        exact scanning.ordered
      · rw [if_neg Bool.false_ne_true, same]
        exact scanning.before
  unfold skipRange
  refine Discipline.Outline.ite (fun _ => ?_) fun direct => ?_
  · refine Discipline.Outline.bind (outline_isValidForDelIn target scan.foundPoolId)
      fun verdict => ?_
    rcases verdict with code | ⟨retCode, found⟩
    · exact fun _ _ failed => failed
    · exact fun _ _ holds => ⟨rfl, decided holds.1 holds.2⟩
  · intro state invariant scanning
    refine ⟨rfl, decided scanning fun passed => ?_⟩
    have honest := (scanning.ahead range List.mem_cons_self).1.2
    have passes := (scanning.ahead range List.mem_cons_self).2
    have sought : state.round.Target poolId := scanning.round ▸ target
    refine invariant.confined_address (Bool.eq_false_iff.mpr direct) sought honest ?_
    cases poolId with
    | some id =>
      have due : state.round.pending id = true := sought
      have bounded := invariant.books.inUseBounded id (invariant.books.pendingInUse id due).1
      have address : range.startLba &&& store.poolMask = store.poolIdHash (UInt32.ofNat id) :=
        of_decide_eq_true passes
      rw [poolIdHash_id (Bool.eq_false_iff.mpr direct) bounded] at address
      exact decide_eq_false (not_not.mpr address.symm)
    | none =>
      refine decide_eq_false fun default => ?_
      exact of_decide_eq_false passed ⟨rfl, default⟩

/-- The device lists ranges for the thread. -/
theorem outline_listed {search : NvmBlockRange} {maxRanges : Nat} (positive : 0 < maxRanges) :
    (deletionSystemDiscipline store calls).Outline (deletionSystemAnswer store calls) none
      (nvmLogicalRanges search maxRanges (store.scanMask poolId) (store.scanPattern poolId))
      (DeletionState.Scanning store round poolId taken [] search)
      fun answered state => state.round = round ∧ ∀ found left, answered = some (found, left) →
        state.Scanning store round poolId taken found left := by
  refine Discipline.Outline.perform (fun _ _ _ _ relied => (relied rfl).scanning)
    fun state invariant scanning => ?_
  refine ⟨fun _ iovec batch => ?_, fun answered reached allowed reply => ?_⟩
  · injection batch with inner
    injection inner
  obtain ⟨after, made, rfl⟩ := deletionSystemAnswer_eq reply
  obtain ⟨rfl, rfl⟩ := Prod.mk.inj (Option.some.inj made)
  refine ⟨{ invariant with }, fun other apart same => absurd same apart, scanning.round, ?_⟩
  intro found left same
  have called := Option.some.inj same
  obtain ⟨starts, _, ends, _, _⟩ := Media.logicalRangeIterator_rest positive called
  have honest : ∀ range ∈ found, state.Honest range := by
    intro range member
    refine allowed range ?_
    rw [called]
    exact member
  have sublist : found.Sublist ((state.system.store.media.logicalRanges search).filter
      (Media.passesFilter (store.scanMask poolId) (store.scanPattern poolId))) := by
    have taken : _ = found := congrArg Prod.fst called
    rw [← taken]
    exact List.take_sublist _ _
  have early : ∀ range ∈ taken, range.startLba + range.length ≤ search.startLba :=
    fun range member => scanning.before range (List.mem_append_left _ member)
  have inside : ∀ range ∈ found, search.startLba ≤ range.startLba := fun range member =>
    (Media.isRun_of_mem (List.mem_of_mem_filter (sublist.subset member))).above
  refine ⟨scanning.round, ?_, ?_, ?_, ?_⟩
  · intro range member
    obtain ⟨listed, confined⟩ := scanning.collected range member
    exact ⟨List.mem_append_left _ listed, confined⟩
  · intro range member
    refine ⟨⟨List.mem_append_right _ ?_, honest range member⟩,
      (List.mem_filter.mp (sublist.subset member)).2⟩
    rw [called]
    exact member
  · refine List.pairwise_append.mpr ⟨?_, ?_, fun first listed second member =>
      (early first listed).trans (inside second member)⟩
    · have ordered := scanning.ordered
      rwa [List.append_nil] at ordered
    · exact ((List.Pairwise.filter _ Media.logicalRanges_pairwise).sublist sublist).imp
        fun apart => apart.le
  · intro range member
    rcases List.mem_append.mp member with earlier | later
    · exact (early range earlier).trans starts
    · exact ends range later

omit [DecidableEq ι] in
/-- What is left to iterate over does not matter to what was listed, as long as it is not
shortened from the front. -/
theorem DeletionState.Scanning.ended
    (scanning : state.Scanning store round poolId taken ranges left) (length : Nat) :
    state.Scanning store round poolId taken ranges ⟨left.startLba, length⟩ :=
  ⟨scanning.round, scanning.collected, scanning.ahead, scanning.ordered, scanning.before⟩

/-- What is recorded after a batch that only trims was recorded before, at sectors that the batch
does not cover. -/
theorem trimmed_pairs {iovec : List NvmIovec} {lba : Nat} {pair : PoolPair}
    (stored : (state.batched store calls none iovec).pairs lba = some pair) :
    ¬BatchCovers store iovec lba ∧ state.pairs lba = some pair := by
  change (if BatchCovers store iovec lba then _ else state.pairs lba) = some pair at stored
  split_ifs at stored with covered mapped
  · cases stored
  · exact ⟨covered, stored⟩

/-- A batch of the thread keeps what is between two steps. -/
theorem DeletionInvariant.trimmed (invariant : DeletionInvariant store state)
    (iovec : List NvmIovec) :
    DeletionInvariant store (state.batched store calls none iovec) where
  books := invariant.books
  header := by
    intro lba pair stored here
    obtain ⟨uncovered, before⟩ := trimmed_pairs stored
    have same : (state.batched store calls none iovec).system.store.media lba =
        state.system.store.media lba := applyBatch_uncovered uncovered
    rw [storedHeader_congr same]
    exact invariant.header lba pair before here
  addressed := fun lba pair stored => invariant.addressed lba pair (trimmed_pairs stored).2
  bounded := fun lba pair stored => invariant.bounded lba pair (trimmed_pairs stored).2
  cached := invariant.cached
  pending := invariant.pending
  all := fun status deletesAll lba pair stored =>
    invariant.all status deletesAll lba pair (trimmed_pairs stored).2

/-- The thread trims what it has taken. What it has still to look at lies behind. -/
theorem outline_trimmed :
    (deletionSystemDiscipline store calls).Outline (deletionSystemAnswer store calls) none
      (liftStore (nvmWritev (taken.map (poolRangeIovec store))))
      (DeletionState.Scanning store round poolId taken ranges left)
      (EndsWith (fun state => state.round = round) fun _ =>
        DeletionState.Scanning store round poolId [] ranges left) := by
  have handed : (deletionStoreDiscipline store calls).Outline (deletionStoreAnswer store calls)
      none (nvmBatchAtomicOperations (taken.map (poolRangeIovec store)))
      (DeletionState.Scanning store round poolId taken ranges left)
      fun _ => DeletionState.Scanning store round poolId [] ranges left := by
    refine Discipline.Outline.perform (fun _ _ _ _ relied => (relied rfl).scanning)
      fun state invariant scanning => ?_
    refine ⟨?_, fun answered reached allowed reply => ?_⟩
    · rintro _ iovec same
      injection same with inner
      injection inner with batch
      injection batch with handed
      subst handed
      exact invariant.trims fun range member => (scanning.collected range member).2
    obtain ⟨after, made, rfl⟩ := deletionStoreAnswer_eq reply
    obtain ⟨rfl, rfl⟩ := Prod.mk.inj (Option.some.inj made)
    refine ⟨invariant.trimmed _, fun other apart same => absurd same apart, ?_⟩
    have apart : ∀ range ∈ ranges,
        ¬BatchCovers store (taken.map (poolRangeIovec store)) range.startLba := by
      rintro range member ⟨vector, handed, covers⟩
      obtain ⟨earlier, among, rfl⟩ := List.mem_map.mp handed
      have behind := (List.pairwise_append.mp scanning.ordered).2.2 earlier among range member
      have below := ((poolRangeIovec_covers store).mp covers).2
      omega
    refine ⟨scanning.round, fun _ absent => (List.not_mem_nil absent).elim, ?_,
      (List.pairwise_append.mp scanning.ordered).2.1, fun range member =>
        scanning.before range (List.mem_append_right _ member)⟩
    intro range member
    obtain ⟨⟨listed, honest⟩, passes⟩ := scanning.ahead range member
    refine ⟨⟨?_, ?_⟩, passes⟩
    · exact List.mem_filter.mpr ⟨listed, decide_eq_true (apart range member)⟩
    · intro lba pair covers stored
      obtain ⟨first, starts, whole⟩ := honest lba pair covers (trimmed_pairs stored).2
      exact ⟨first, (if_neg (apart range member)).trans starts, whole⟩
  refine outline_liftStore (Discipline.Outline.bind handed fun done => ?_)
  exact Discipline.Outline.ite (fun _ => fun _ _ holds => holds) fun _ => fun _ _ holds =>
    holds.round

/-- What a scan of the deletion thread does to what it has listed and taken. -/
theorem deletion_scans (target : round.Target poolId) :
    Scans store (deletionSystemDiscipline store calls) (deletionSystemAnswer store calls) none
      poolId (fun state => state.round = round)
      (DeletionState.Scanning store round poolId) where
  gives := fun holds => holds.round
  never := by
    intro taken ranges left
    have ignores := @ignores_spared _ _ store calls
      (DeletionState.Scanning store round poolId taken ranges left) fun spared => spared.scanning
    have returns : (neverReturns : StoreM (Except NvmErrorCode Nat)).Returns fun _ => False :=
      fun absurd => nomatch absurd
    refine (outline_liftStore (ignores.returns reads_neverReturns.searches returns)).weaken ?_
    exact fun _ _ _ holds => holds.2
  listed := fun positive => (outline_listed positive).weaken fun _ _ _ holds =>
    ⟨holds.1, fun found left same =>
      ⟨holds.2 found left same, fun _ => (holds.2 found left same).ended 0⟩⟩
  checked := outline_skipRange target
  trimmed := outline_trimmed

end Scans

end Nvmkv
