import Nvmkv.ExactReadsAgree
import Nvmkv.IterationRuns

/-!
# Whether an iteration is complete and exact

A client that iterates over a pool should take every unexpired pair of the pool once and
nothing else. What it takes is known: the mapped ranges of the data area, in order, that
have the pool in their address and header and start with an unexpired header, up to the
first header with a negative pool id. What it should take are the pairs that lookups find,
each in a mapped range of its own.

The two differ in three ways. A pair may lie in front of the data area, where a collision
can put it, or behind a range that ends the iteration. A range may hold a copy of a pair
that no lookup finds: a pair that was put behind another one, and put again at the
earlier address once the other one was deleted, is stored twice. And the code with which a
range ends the iteration need not be the one for the end.
-/

namespace Nvmkv

variable {ι : Type}

/-- A pair that has not expired, at the address where lookups of its key find it. -/
structure LivePair (store : NvmKvStore) (state : StoreState ι) (poolId : UInt32)
    (key : List UInt8) (lba : Nat) : Prop where
  accepted : kvValidateKey key = true
  found : lookupLba store state.media poolId key = some lba
  unexpired : pairExpired store state.clock (storedHeader store state.media lba) = false

/-- The sectors mapped in a row around the start of a pair are those of the pair. -/
def OwnRange (store : NvmKvStore) (media : Media) (lba : Nat) : Prop :=
  ∃ range, media.IsRun ⟨0, store.kvLen⟩ range ∧ range.startLba = lba ∧
    ExactlyPair store (storedHeader store media lba) range

/-- What a client took is the pair: its lengths are those of the header and its bytes are
the bytes stored. -/
structure IsPair (store : NvmKvStore) (media : Media) (pair : CurrentPair) : Prop where
  keyLen : pair.keyLen = pair.key.length
  valueLen : pair.valueLen = (storedHeader store media pair.keyLoc).valueLen
  length : pair.length = (storedHeader store media pair.keyLoc).valueLen
  value : ∀ i, i < pair.length → pair.value i = media.read store.sectorSize pair.keyLoc
    ((storedHeader store media pair.keyLoc).valueOffset + i)

/-- An iteration is complete and exact. -/
structure IteratesExactly (store : NvmKvStore) (state : StoreState ι) (poolId : UInt32)
    (entries : List CurrentPair) (code : Int) : Prop where
  ended : code = NvmErrorCode.objectNotFound.retCode
  once : (entries.map CurrentPair.key).Nodup
  complete : ∀ key lba, LivePair store state poolId key lba →
    ∃ pair ∈ entries, pair.key = key ∧ pair.keyLoc = lba
  sound : ∀ pair ∈ entries, LivePair store state poolId pair.key pair.keyLoc ∧
    IsPair store state.media pair

/-- When an iteration is complete and exact. Of the ranges that end an iteration early,
the first one decides how it ends, and nothing behind it is reached. -/
structure Iterable (store : NvmKvStore) (state : StoreState ι) (poolId : UInt32) : Prop where
  reached : ∀ key lba, LivePair store state poolId key lba → store.dataStartLba ≤ lba ∧
    ∀ other ∈ state.media.logicalRanges store.usrData,
      endsIteration store state.media poolId other = true → lba < other.startLba
  current : ∀ range ∈ state.media.logicalRanges store.usrData,
    ofPool store state.media poolId range = true →
    readsAsPair store state.media state.clock range = true →
    (∀ other ∈ state.media.logicalRanges store.usrData,
      endsIteration store state.media poolId other = true → range.startLba < other.startLba) →
    ∃ key, LivePair store state poolId key range.startLba
  ends : ∀ range ∈ state.media.logicalRanges store.usrData,
    endsIteration store state.media poolId range = true →
    (∀ other ∈ state.media.logicalRanges store.usrData,
      endsIteration store state.media poolId other = true → range.startLba ≤ other.startLba) →
    asInt (rangeHeader store state.media range).poolId = NvmErrorCode.objectNotFound.retCode

section Lists

variable {store : NvmKvStore} {media : Media} {poolId : UInt32} {clock : Nat}

/-- What is taken are the ranges of the pool that read as pairs, up to the first one that
ends the iteration. -/
theorem mem_taken {ranges : List NvmBlockRange}
    (ordered : ranges.Pairwise fun first second => first.startLba < second.startLba)
    {range : NvmBlockRange} :
    range ∈ (taken store media poolId clock ranges).1 ↔
      range ∈ ranges ∧ ofPool store media poolId range = true ∧
        readsAsPair store media clock range = true ∧
        ∀ other ∈ ranges, endsIteration store media poolId other = true →
          range.startLba < other.startLba := by
  induction ranges with
  | nil =>
    rw [taken]
    exact iff_of_false List.not_mem_nil fun listed => List.not_mem_nil listed.1
  | cons first rest inductionHypothesis =>
    obtain ⟨before, orderedRest⟩ := List.pairwise_cons.mp ordered
    rw [taken]
    cases ends : endsIteration store media poolId first with
    | true =>
      rw [if_pos rfl]
      constructor
      · exact fun absent => absurd absent List.not_mem_nil
      · rintro ⟨listed, _, _, earlier⟩
        have behind := earlier first List.mem_cons_self ends
        rcases List.mem_cons.mp listed with rfl | later
        · omega
        · have after := before range later
          omega
    | false =>
      rw [if_neg Bool.false_ne_true]
      have behind : ∀ other ∈ first :: rest, endsIteration store media poolId other = true →
          other ∈ rest := by
        intro other listed ending
        rcases List.mem_cons.mp listed with rfl | later
        · rw [ends] at ending
          exact Bool.noConfusion ending
        · exact later
      by_cases takes : (ofPool store media poolId first &&
          readsAsPair store media clock first) = true
      · rw [if_pos takes, List.mem_cons, inductionHypothesis orderedRest]
        rw [Bool.and_eq_true] at takes
        constructor
        · rintro (rfl | ⟨later, belongs, reads, earlier⟩)
          · exact ⟨List.mem_cons_self, takes.1, takes.2,
              fun other listed ending => before other (behind other listed ending)⟩
          · exact ⟨List.mem_cons_of_mem _ later, belongs, reads,
              fun other listed ending => earlier other (behind other listed ending) ending⟩
        · rintro ⟨listed, belongs, reads, earlier⟩
          rcases List.mem_cons.mp listed with rfl | later
          · exact Or.inl rfl
          · exact Or.inr ⟨later, belongs, reads,
              fun other further => earlier other (List.mem_cons_of_mem _ further)⟩
      · rw [if_neg takes, inductionHypothesis orderedRest]
        constructor
        · rintro ⟨later, belongs, reads, earlier⟩
          exact ⟨List.mem_cons_of_mem _ later, belongs, reads,
            fun other listed ending => earlier other (behind other listed ending) ending⟩
        · rintro ⟨listed, belongs, reads, earlier⟩
          rcases List.mem_cons.mp listed with rfl | later
          · rw [Bool.and_eq_true] at takes
            exact absurd ⟨belongs, reads⟩ takes
          · exact ⟨later, belongs, reads,
              fun other further => earlier other (List.mem_cons_of_mem _ further)⟩

/-- The code at the end is that of the end of the data, or of the first range that ends
the iteration. -/
theorem taken_code {ranges : List NvmBlockRange}
    (ordered : ranges.Pairwise fun first second => first.startLba < second.startLba) :
    (taken store media poolId clock ranges).2 = NvmErrorCode.objectNotFound.retCode ↔
      ∀ range ∈ ranges, endsIteration store media poolId range = true →
        (∀ other ∈ ranges, endsIteration store media poolId other = true →
          range.startLba ≤ other.startLba) →
        asInt (rangeHeader store media range).poolId = NvmErrorCode.objectNotFound.retCode := by
  induction ranges with
  | nil =>
    rw [taken]
    exact ⟨fun _ _ absent => absurd absent List.not_mem_nil, fun _ => rfl⟩
  | cons first rest inductionHypothesis =>
    obtain ⟨before, orderedRest⟩ := List.pairwise_cons.mp ordered
    rw [taken]
    cases ends : endsIteration store media poolId first with
    | true =>
      rw [if_pos rfl]
      constructor
      · intro code range listed _ least
        rcases List.mem_cons.mp listed with rfl | later
        · exact code
        · have after := before range later
          have lowest := least first List.mem_cons_self ends
          omega
      · intro codes
        refine codes first List.mem_cons_self ends ?_
        intro other listed _
        rcases List.mem_cons.mp listed with rfl | later
        · exact Nat.le_refl _
        · exact Nat.le_of_lt (before other later)
    | false =>
      rw [if_neg Bool.false_ne_true]
      have tail : (if (ofPool store media poolId first &&
          readsAsPair store media clock first) = true then
            (first :: (taken store media poolId clock rest).1,
              (taken store media poolId clock rest).2)
          else taken store media poolId clock rest).2 =
            (taken store media poolId clock rest).2 := by
        split <;> rfl
      rw [tail, inductionHypothesis orderedRest]
      constructor
      · intro codes range listed ending least
        rcases List.mem_cons.mp listed with rfl | later
        · rw [ends] at ending
          exact Bool.noConfusion ending
        · exact codes range later ending fun other further =>
            least other (List.mem_cons_of_mem _ further)
      · intro codes range later ending least
        refine codes range (List.mem_cons_of_mem _ later) ending ?_
        intro other listed otherEnds
        rcases List.mem_cons.mp listed with rfl | further
        · rw [ends] at otherEnds
          exact Bool.noConfusion otherEnds
        · exact least other further otherEnds

/-- What a client takes are some of the ranges, in order. -/
theorem taken_sublist (ranges : List NvmBlockRange) :
    (taken store media poolId clock ranges).1.Sublist ranges := by
  induction ranges with
  | nil => exact List.Sublist.refl _
  | cons first rest inductionHypothesis =>
    rw [taken]
    split_ifs
    · exact List.nil_sublist _
    · exact inductionHypothesis.cons_cons first
    · exact inductionHypothesis.cons first

end Lists

section Pairs

variable {store : NvmKvStore} {state : StoreState ι} {poolId : UInt32} {key : List UInt8}
  {lba : Nat}

/-- A range that shares the low bits of the pool passes the filter. -/
theorem passesFilter_of_shares {range : NvmBlockRange}
    (shares : sharesBits store poolId range = true) :
    Media.passesFilter (if store.poolIdHash poolId = 0 then 0 else store.poolMask)
      (store.poolIdHash poolId) range = true := by
  rw [sharesBits, decide_eq_true_iff] at shares
  rw [Media.passesFilter, decide_eq_true_iff]
  split
  · rename_i zero
    rw [Nat.and_zero, zero]
  · exact shares.symm

/-- What is stored at the address of a pair. -/
theorem LivePair.matched (live : LivePair store state poolId key lba) :
    MatchesAt store state.media poolId key lba := by
  obtain ⟨i, first, rfl⟩ := exists_firstMatch live.found
  exact first.found

/-- The address of a pair of a pool of the store has the low bits of the pool. -/
theorem LivePair.shares (live : LivePair store state poolId key lba)
    (known : poolId.toNat < store.maxPools) {range : NvmBlockRange}
    (starts : range.startLba = lba) : sharesBits store poolId range = true := by
  obtain ⟨i, first, rfl⟩ := exists_firstMatch live.found
  have nonempty : key ≠ [] := by
    rintro rfl
    exact absurd live.accepted (by decide)
  have offset := probeLba_offset store poolId nonempty first.probed
  have narrow : store.poolBits ≤ store.valueBits :=
    Nat.le_of_lt ((Nat.pow_lt_pow_iff_right (by decide)).mp NvmKvStore.poolBits_lt)
  have low : store.probeLba poolId key i % 2 ^ store.poolBits = store.poolIdHash poolId := by
    rw [← Nat.mod_mod_of_dvd _ (Nat.pow_dvd_pow 2 narrow), offset,
      Nat.mod_mod_of_dvd _ (Nat.pow_dvd_pow 2 narrow),
      Nat.mod_eq_of_lt (NvmKvStore.poolIdHash_lt known)]
  rw [sharesBits, starts, NvmKvStore.poolMask, Nat.and_two_pow_sub_one_eq_mod, low,
    decide_eq_true rfl]

/-- A range that starts with a pair belongs to the pair's pool. -/
theorem LivePair.ofPool (live : LivePair store state poolId key lba)
    (known : poolId.toNat < store.maxPools) {range : NvmBlockRange}
    (starts : range.startLba = lba) : ofPool store state.media poolId range = true := by
  have header : (rangeHeader store state.media range).poolId = poolId.toNat := by
    rw [rangeHeader, starts]
    exact live.matched.poolId
  rw [Nvmkv.ofPool, live.shares known starts, header, decide_eq_true rfl, Bool.or_true,
    Bool.and_true]

/-- It reads as one. -/
theorem LivePair.readsAsPair (live : LivePair store state poolId key lba)
    {range : NvmBlockRange} (starts : range.startLba = lba) :
    readsAsPair store state.media state.clock range = true := by
  have keyLen : (rangeHeader store state.media range).keyLen = key.length := by
    rw [rangeHeader, starts]
    exact live.matched.keyLen
  have unexpired : pairExpired store state.clock (rangeHeader store state.media range) = false := by
    rw [rangeHeader, starts]
    exact live.unexpired
  have accepted := of_decide_eq_true live.accepted
  have isKey : (rangeHeader store state.media range).isKey = true := by
    rw [NvmKvHeader.isKey, keyLen]
    exact decide_eq_true ⟨Nat.ne_of_gt accepted.1, accepted.2⟩
  rw [Nvmkv.readsAsPair, isKey, unexpired, Bool.not_false, Bool.and_true]

/-- A key has one pair. -/
theorem LivePair.unique {other : Nat} (live : LivePair store state poolId key lba)
    (again : LivePair store state poolId key other) : lba = other :=
  Option.some.inj (live.found.symm.trans again.found)

/-- What was taken at the range of a pair is the pair. -/
theorem LivePair.taken (live : LivePair store state poolId key lba) {bufferLen : Nat}
    {range : NvmBlockRange} {pair : CurrentPair}
    (took : TakenFrom store state.media bufferLen range pair) (starts : range.startLba = lba)
    (own : ExactlyPair store (storedHeader store state.media lba) range)
    (large : (storedHeader store state.media lba).valueLen ≤ bufferLen) :
    pair.key = key ∧ pair.keyLoc = lba ∧ IsPair store state.media pair := by
  subst starts
  have matched := live.matched
  have header : rangeHeader store state.media range =
      storedHeader store state.media range.startLba := rfl
  have taken : pair.key = key := by
    rw [took.key, header, matched.keyLen]
    exact matched.key
  refine ⟨taken, took.address, ?_, ?_, ?_, ?_⟩
  · rw [taken, took.keyLen, header, matched.keyLen]
  · rw [took.valueLen, took.address, header]
  · rw [took.length, took.address, header, Nat.min_eq_right large]
  · intro i inside
    rw [took.length, header, Nat.min_eq_right large] at inside
    rw [took.address]
    exact took.value own large i inside

end Pairs

section Entries

variable {store : NvmKvStore} {media : Media} {bufferLen : Nat}

/-- Every range taken gave an entry. -/
theorem exists_entry {ranges : List NvmBlockRange} {entries : List CurrentPair}
    (took : List.Forall₂ (TakenFrom store media bufferLen) ranges entries)
    {range : NvmBlockRange} (member : range ∈ ranges) :
    ∃ pair ∈ entries, TakenFrom store media bufferLen range pair := by
  induction took with
  | nil => exact nomatch member
  | cons first _ inductionHypothesis =>
    rcases List.mem_cons.mp member with rfl | later
    · exact ⟨_, List.mem_cons_self, first⟩
    · obtain ⟨pair, listed, taken⟩ := inductionHypothesis later
      exact ⟨pair, List.mem_cons_of_mem _ listed, taken⟩

/-- Every entry comes from a range taken. -/
theorem exists_range {ranges : List NvmBlockRange} {entries : List CurrentPair}
    (took : List.Forall₂ (TakenFrom store media bufferLen) ranges entries)
    {pair : CurrentPair} (member : pair ∈ entries) :
    ∃ range ∈ ranges, TakenFrom store media bufferLen range pair := by
  induction took with
  | nil => exact nomatch member
  | cons first _ inductionHypothesis =>
    rcases List.mem_cons.mp member with rfl | later
    · exact ⟨_, List.mem_cons_self, first⟩
    · obtain ⟨range, listed, taken⟩ := inductionHypothesis later
      exact ⟨range, List.mem_cons_of_mem _ listed, taken⟩

/-- Entries of ranges in order were read at different addresses. -/
theorem entries_apart {ranges : List NvmBlockRange} {entries : List CurrentPair}
    (took : List.Forall₂ (TakenFrom store media bufferLen) ranges entries)
    (ordered : ranges.Pairwise fun first second => first.startLba < second.startLba) :
    entries.Pairwise fun first second => first.keyLoc ≠ second.keyLoc := by
  induction took with
  | nil => exact List.Pairwise.nil
  | cons first rest inductionHypothesis =>
    obtain ⟨before, orderedRest⟩ := List.pairwise_cons.mp ordered
    refine List.pairwise_cons.mpr ⟨?_, inductionHypothesis orderedRest⟩
    intro pair listed same
    obtain ⟨range, member, taken⟩ := exists_range rest listed
    have behind := before range member
    rw [first.address, taken.address] at same
    omega

end Entries

section Handed

variable {store : NvmKvStore} {media : Media} {poolId : UInt32} {clock : Nat}

/-- The device hands out the ranges in the order of their addresses. -/
theorem poolRanges_ordered : (poolRanges store media poolId).Pairwise fun first second =>
    first.startLba < second.startLba := by
  refine (List.Pairwise.filter _ Media.logicalRanges_pairwise).imp ?_
  exact fun before => Nat.lt_of_le_of_lt (Nat.le_add_right _ _) before

/-- It hands out every mapped range with the low bits of the pool. -/
theorem mem_poolRanges {range : NvmBlockRange}
    (shares : sharesBits store poolId range = true) :
    range ∈ poolRanges store media poolId ↔ range ∈ media.logicalRanges store.usrData := by
  rw [poolRanges, List.mem_filter]
  exact and_iff_left (passesFilter_of_shares shares)

/-- So also the ranges at which an iteration ends. -/
theorem mem_poolRanges_ends {range : NvmBlockRange}
    (ends : endsIteration store media poolId range = true) :
    range ∈ poolRanges store media poolId ↔ range ∈ media.logicalRanges store.usrData := by
  rw [endsIteration, Bool.and_eq_true, Bool.and_eq_true] at ends
  exact mem_poolRanges ends.1.1

/-- What a client takes, of the mapped ranges of the data area. -/
theorem mem_taken_poolRanges {range : NvmBlockRange} :
    range ∈ (taken store media poolId clock (poolRanges store media poolId)).1 ↔
      range ∈ media.logicalRanges store.usrData ∧ ofPool store media poolId range = true ∧
        readsAsPair store media clock range = true ∧
        ∀ other ∈ media.logicalRanges store.usrData,
          endsIteration store media poolId other = true → range.startLba < other.startLba := by
  rw [mem_taken poolRanges_ordered]
  constructor
  · rintro ⟨listed, belongs, reads, earlier⟩
    exact ⟨List.mem_of_mem_filter listed, belongs, reads,
      fun other mapped ends => earlier other ((mem_poolRanges_ends ends).mpr mapped) ends⟩
  · rintro ⟨mapped, belongs, reads, earlier⟩
    have shares : sharesBits store poolId range = true := by
      rw [ofPool, Bool.and_eq_true] at belongs
      exact belongs.1
    exact ⟨(mem_poolRanges shares).mpr mapped, belongs, reads,
      fun other listed ends => earlier other ((mem_poolRanges_ends ends).mp listed) ends⟩

/-- How the iteration ends, by the mapped ranges of the data area. -/
theorem taken_code_poolRanges :
    (taken store media poolId clock (poolRanges store media poolId)).2 =
        NvmErrorCode.objectNotFound.retCode ↔
      ∀ range ∈ media.logicalRanges store.usrData,
        endsIteration store media poolId range = true →
        (∀ other ∈ media.logicalRanges store.usrData,
          endsIteration store media poolId other = true → range.startLba ≤ other.startLba) →
        asInt (rangeHeader store media range).poolId = NvmErrorCode.objectNotFound.retCode := by
  rw [taken_code poolRanges_ordered]
  constructor
  · intro codes range mapped ends least
    exact codes range ((mem_poolRanges_ends ends).mpr mapped) ends fun other listed otherEnds =>
      least other ((mem_poolRanges_ends otherEnds).mp listed) otherEnds
  · intro codes range listed ends least
    exact codes range ((mem_poolRanges_ends ends).mp listed) ends fun other mapped otherEnds =>
      least other ((mem_poolRanges_ends otherEnds).mpr mapped) otherEnds

end Handed

section Copies

/-- The later key at the first of its addresses, after the earlier key was deleted from
there, and perhaps still at the next one, where it was put before. -/
def copiesMedia (older : Bool) : Media := fun l =>
  if l = sharedLba then some (writeHeader (fun _ => 7) 0 laterKey 1 43 0 0)
  else if l = nextLba ∧ older = true then some (writeHeader (fun _ => 5) 0 laterKey 1 43 0 0)
  else none

/-- The default pool of a store with this media. -/
def copiesState (older : Bool) : SystemState Unit where
  store := .opened (copiesMedia older) (fun _ => false) 0
  mgr := .created fun _ => .zero
  poolMedia := ⟨.zero, .zero, fun _ => .zero, 0⟩

/-- The buffers of a client of that store. -/
def sectorBuffers : IterationBuffers where
  value := ⟨0, fun _ => 0⟩
  valueLen := 512
  poolIdBuf := some fun _ => 0
  headerBuf := some fun _ => 0

/-- The memory of a new iterator. -/
def iteratorMemory : KvBatchIterator where
  poolHash := 0
  numRangesFound := 0
  pos := 0
  rangeToIterate := ⟨0, 0⟩
  maxRanges := 0
  filters := ⟨0, 0, 0⟩
  ranges := fun _ => ⟨0, 0⟩

/-- The low bits of an address tell the pool there. -/
theorem terabyte_trusts : NvmKvStore.terabyteStore.validatesPoolIdOnMedia = false := by
  decide +kernel

/-- Buffers of one sector are ready for the example. -/
theorem sectorBuffers_ready : IterationReady NvmKvStore.terabyteStore sectorBuffers
    (fun _ => 0) fun _ => 0 :=
  ⟨rfl, rfl, by decide, by decide, by decide, by decide⟩

variable {older : Bool}

/-- The shared address has the newer copy. -/
theorem copiesMedia_shared : copiesMedia older sharedLba =
    some (writeHeader (fun _ => 7) 0 laterKey 1 43 0 0) := if_pos rfl

/-- The next one has the older copy, if any. -/
theorem copiesMedia_next : copiesMedia true nextLba =
    some (writeHeader (fun _ => 5) 0 laterKey 1 43 0 0) := by
  have apart : nextLba ≠ sharedLba := by decide +kernel
  rw [copiesMedia, if_neg apart, if_pos ⟨rfl, rfl⟩]

/-- No other sector is mapped. -/
theorem copiesMedia_unmapped {l : Nat} (shared : l ≠ sharedLba) (next : l ≠ nextLba) :
    copiesMedia older l = none := by
  rw [copiesMedia, if_neg shared, if_neg fun copied => next copied.1]

/-- Only the two addresses have anything mapped. -/
theorem copiesMedia_mapped {l : Nat} (mapped : (copiesMedia older l).isSome = true) :
    l = sharedLba ∨ l = nextLba := by
  by_contra neither
  rw [not_or] at neither
  rw [copiesMedia_unmapped neither.1 neither.2] at mapped
  exact Bool.noConfusion mapped

/-- Where something is mapped, there is one sector with a pair of that length. -/
theorem copiesMedia_own {lba : Nat} (mapped : (copiesMedia older lba).isSome = true) :
    OwnRange NvmKvStore.terabyteStore (copiesMedia older) lba ∧
      storedHeader NvmKvStore.terabyteStore (copiesMedia older) lba = ⟨3, 1, 43, 0, 0, 0⟩ := by
  have header : storedHeader NvmKvStore.terabyteStore (copiesMedia older) lba =
      ⟨3, 1, 43, 0, 0, 0⟩ := by
    obtain ⟨sector, stored⟩ := Option.isSome_iff_exists.mp mapped
    rw [storedHeader_sector stored]
    rw [copiesMedia] at stored
    split_ifs at stored with shared next
    · rw [← Option.some.inj stored, readHeader_writeHeader]
      rfl
    · rw [← Option.some.inj stored, readHeader_writeHeader]
      rfl
  have places : 0 < sharedLba ∧ 0 < nextLba ∧ sharedLba - 1 ≠ nextLba ∧ nextLba - 1 ≠ sharedLba ∧
      sharedLba + 1 ≠ nextLba ∧ nextLba + 1 ≠ sharedLba ∧
      sharedLba < NvmKvStore.terabyteStore.kvLen ∧ nextLba < NvmKvStore.terabyteStore.kvLen := by
    decide +kernel
  obtain ⟨sharedPositive, nextPositive, sharedBefore, nextBefore, sharedBehind, nextBehind,
    sharedInside, nextInside⟩ := places
  refine ⟨⟨⟨lba, 1⟩, ⟨Nat.zero_le _, Nat.one_pos, ?_, ?_, Or.inr ?_, Or.inr ?_⟩, rfl, ?_⟩, header⟩
  · rcases copiesMedia_mapped mapped with rfl | rfl
    · dsimp only
      omega
    · dsimp only
      omega
  · rintro l ⟨lower, upper⟩
    obtain rfl : l = lba := by
      dsimp only at lower upper
      omega
    exact mapped
  · rcases copiesMedia_mapped mapped with rfl | rfl
    · exact copiesMedia_unmapped (by dsimp only; omega) sharedBefore
    · exact copiesMedia_unmapped nextBefore (by dsimp only; omega)
  · rcases copiesMedia_mapped mapped with rfl | rfl
    · exact copiesMedia_unmapped (by dsimp only; omega) sharedBehind
    · exact copiesMedia_unmapped nextBehind (by dsimp only; omega)
  · have fits : 43 + 1 ≤ NvmKvStore.terabyteStore.sectorSize := by decide
    rw [header]
    exact Or.inl ⟨fits, rfl⟩

/-- The default pool is in use. -/
theorem copiesState_used :
    poolStatus (copiesState older).store.inUse (copiesState older).store.deleted 0 =
      .poolInUse := rfl

/-- A pair of the store lies where something is mapped. -/
theorem copiesState_live {key : List UInt8} {lba : Nat}
    (live : LivePair NvmKvStore.terabyteStore (copiesState older).store 0 key lba) :
    (copiesMedia older lba).isSome = true := by
  by_contra unmapped
  rw [Option.not_isSome_iff_eq_none] at unmapped
  have accepted := of_decide_eq_true live.accepted
  have held := holds_iff.mpr live.matched
  have missed := @holds_unmapped NvmKvStore.terabyteStore _ 0 key lba accepted.1 unmapped
  exact Bool.noConfusion (missed.symm.trans held)

/-- The later key is found at the first of its addresses. -/
theorem copiesState_pair :
    LivePair NvmKvStore.terabyteStore (copiesState older).store 0 laterKey sharedLba := by
  have addresses : NvmKvStore.terabyteStore.probes 0 laterKey = sharedLba ::
      (List.range' 1 7).map (NvmKvStore.terabyteStore.probeLba 0 laterKey) := rfl
  have held : holds NvmKvStore.terabyteStore (copiesMedia older) 0 laterKey sharedLba = true := by
    rw [holds_sector (by decide) copiesMedia_shared,
      headerMatches_writeHeader _ _ _ _ _ _ _ _ _ (by decide)]
    rfl
  refine ⟨by decide, ?_, rfl⟩
  rw [lookupLba, addresses]
  exact List.find?_cons_of_pos held

/-- A range that starts at one of the addresses lies in the data area, belongs to the
default pool and reads as a pair. -/
theorem copies_range {range : NvmBlockRange}
    (mapped : (copiesMedia older range.startLba).isSome = true) :
    NvmKvStore.terabyteStore.dataStartLba ≤ range.startLba ∧
      ofPool NvmKvStore.terabyteStore (copiesMedia older) 0 range = true ∧
      readsAsPair NvmKvStore.terabyteStore (copiesMedia older) 0 range = true := by
  have places : NvmKvStore.terabyteStore.dataStartLba ≤ sharedLba ∧
      NvmKvStore.terabyteStore.dataStartLba ≤ nextLba ∧
      NvmKvStore.terabyteStore.poolIdHash 0 =
        sharedLba &&& NvmKvStore.terabyteStore.poolMask ∧
      NvmKvStore.terabyteStore.poolIdHash 0 =
        nextLba &&& NvmKvStore.terabyteStore.poolMask := by
    decide +kernel
  have header : rangeHeader NvmKvStore.terabyteStore (copiesMedia older) range =
      ⟨3, 1, 43, 0, 0, 0⟩ := (copiesMedia_own mapped).2
  refine ⟨?_, ?_, ?_⟩
  · rcases copiesMedia_mapped mapped with shared | next
    · exact shared ▸ places.1
    · exact next ▸ places.2.1
  · rw [ofPool, terabyte_trusts, Bool.not_false, Bool.true_or, Bool.and_true, sharesBits,
      decide_eq_true_iff]
    rcases copiesMedia_mapped mapped with shared | next
    · exact shared ▸ places.2.2.1
    · exact next ▸ places.2.2.2
  · rw [readsAsPair, header]
    rfl

/-- No header ends an iteration there. -/
theorem copies_continue {media : Media} {range : NvmBlockRange} :
    endsIteration NvmKvStore.terabyteStore media 0 range = false := by
  rw [endsIteration, terabyte_trusts, Bool.and_false, Bool.false_and]

end Copies

/-- A client that iterates over a pool in use ends its loop, and takes every unexpired pair
of the pool once and nothing else exactly when the pool is iterable. Each of these pairs is
a mapped range of its own and fits the client's buffer; the iterator fetches any number of
ranges at a time, and pool ids are hashed into addresses or not.

What is taken is a sublist of the mapped ranges, so entries are pairs when their ranges
start where lookups end, and a pair has an entry when its range is reached. -/
theorem iteration_exact_iff (store : NvmKvStore) (iter : LogicalIterRanges) (thread : ι)
    (state : SystemState ι) (poolId : UInt32) (buffers : IterationBuffers)
    (poolIdBuf headerBuf : Region) (memory : KvBatchIterator)
    (used : poolStatus state.store.inUse state.store.deleted poolId = .poolInUse)
    (known : poolId.toNat < store.maxPools)
    (ready : IterationReady store buffers poolIdBuf headerBuf)
    (own : ∀ key lba, LivePair store state.store poolId key lba →
      OwnRange store state.store.media lba)
    (large : ∀ key lba, LivePair store state.store poolId key lba →
      (storedHeader store state.store.media lba).valueLen ≤ buffers.valueLen) :
    ∃ entries code after, (iteratePool store iter poolId buffers (.ok memory)).run
        (answerSystem store thread) state = some ((entries, code), after) ∧
      (IteratesExactly store state.store poolId entries code ↔
        Iterable store state.store poolId) := by
  obtain ⟨queue, entries, ran, took⟩ := takesAll_iteratePool thread ready iter memory used
  have apart := entries_apart took (poolRanges_ordered.sublist (taken_sublist _))
  have ranged : ∀ key lba, LivePair store state.store poolId key lba → store.dataStartLba ≤ lba →
      ∃ range ∈ state.store.media.logicalRanges store.usrData, range.startLba = lba ∧
        ExactlyPair store (storedHeader store state.store.media lba) range := by
    intro key lba live inside
    obtain ⟨range, run, starts, sized⟩ := own key lba live
    exact ⟨range, (run.narrow (starts ▸ inside)).mem, starts, sized⟩
  refine ⟨entries, _, _, ran, ?_, ?_⟩
  · intro exactly
    refine ⟨?_, ?_, taken_code_poolRanges.mp exactly.ended⟩
    · intro key lba live
      obtain ⟨pair, listed, _, address⟩ := exactly.complete key lba live
      obtain ⟨range, member, read⟩ := exists_range took listed
      obtain ⟨mapped, _, _, earlier⟩ := mem_taken_poolRanges.mp member
      have starts : range.startLba = lba := read.address.symm.trans address
      subst starts
      exact ⟨(Media.isRun_of_mem mapped).above, earlier⟩
    · intro range mapped belongs reads earlier
      obtain ⟨pair, listed, read⟩ := exists_entry took
        (mem_taken_poolRanges.mpr ⟨mapped, belongs, reads, earlier⟩)
      have live := (exactly.sound pair listed).1
      rw [read.address] at live
      exact ⟨pair.key, live⟩
  · intro iterable
    have sound : ∀ pair ∈ entries, LivePair store state.store poolId pair.key pair.keyLoc ∧
        IsPair store state.store.media pair := by
      intro pair listed
      obtain ⟨range, member, read⟩ := exists_range took listed
      obtain ⟨mapped, belongs, reads, earlier⟩ := mem_taken_poolRanges.mp member
      obtain ⟨key, live⟩ := iterable.current range mapped belongs reads earlier
      obtain ⟨other, otherMapped, starts, sized⟩ :=
        ranged key range.startLba live (Media.isRun_of_mem mapped).above
      have same : other = range := by
        rw [(Media.mem_logicalRanges.mp otherMapped).2.2, starts,
          ← (Media.mem_logicalRanges.mp mapped).2.2]
      subst same
      obtain ⟨rfl, address, isPair⟩ := live.taken read rfl sized (large key _ live)
      rw [address]
      exact ⟨live, isPair⟩
    refine ⟨taken_code_poolRanges.mpr iterable.ends, ?_, ?_, sound⟩
    · rw [List.Nodup, List.pairwise_map]
      refine apart.imp_of_mem fun {first second} member other different same => different ?_
      have live := (sound first member).1
      rw [same] at live
      exact live.unique (sound second other).1
    · intro key lba live
      obtain ⟨inside, earlier⟩ := iterable.reached key lba live
      obtain ⟨range, mapped, starts, sized⟩ := ranged key lba live inside
      obtain ⟨pair, listed, read⟩ := exists_entry took (mem_taken_poolRanges.mpr ⟨mapped,
        live.ofPool known starts, live.readsAsPair starts, starts ▸ earlier⟩)
      obtain ⟨sameKey, address, _⟩ := live.taken read starts sized (large key lba live)
      exact ⟨pair, listed, sameKey, address⟩

/-- Without the older copy, a client takes the later key once and nothing else. -/
theorem iteration_exact_once : ∃ entries code after,
    (iteratePool NvmKvStore.terabyteStore ⟨2, by decide⟩ 0 sectorBuffers (.ok iteratorMemory)).run
        (answerSystem NvmKvStore.terabyteStore ()) (copiesState false) =
      some ((entries, code), after) ∧
    IteratesExactly NvmKvStore.terabyteStore (copiesState false).store 0 entries code := by
  obtain ⟨entries, code, after, ran, exactly⟩ := iteration_exact_iff NvmKvStore.terabyteStore
    ⟨2, by decide⟩ () (copiesState false) 0 sectorBuffers (fun _ => 0) (fun _ => 0) iteratorMemory
    copiesState_used (by decide) sectorBuffers_ready
    (fun key lba live => (copiesMedia_own (copiesState_live live)).1)
    (fun key lba live => by
      have header := (copiesMedia_own (copiesState_live live)).2
      exact (congrArg NvmKvHeader.valueLen header).trans_le (by decide))
  have single : ∀ lba, (copiesMedia false lba).isSome = true → lba = sharedLba := by
    intro lba mapped
    rw [copiesMedia] at mapped
    split_ifs at mapped with shared next
    · exact shared
    · exact next.2.elim
    · exact Bool.noConfusion mapped
  refine ⟨entries, code, after, ran, exactly.mpr ⟨?_, ?_, ?_⟩⟩
  · intro key lba live
    refine ⟨(@copies_range false ⟨lba, 1⟩ (copiesState_live live)).1, ?_⟩
    intro other _ ends
    rw [copies_continue] at ends
    exact Bool.noConfusion ends
  · intro range member _ _ _
    have run := Media.isRun_of_mem member
    have starts := single range.startLba (run.mapped range.startLba
      ⟨Nat.le_refl _, Nat.lt_add_of_pos_right run.positive⟩)
    exact ⟨laterKey, starts ▸ copiesState_pair⟩
  · intro range _ ends
    rw [copies_continue] at ends
    exact Bool.noConfusion ends

/-- With the older copy, a client takes the later key twice, with two values, although
lookups find it at its first address alone. -/
theorem iteration_takes_older_copy :
    ¬∀ (store : NvmKvStore) (iter : LogicalIterRanges) (state : SystemState Unit)
      (poolId : UInt32) (buffers : IterationBuffers) (poolIdBuf headerBuf : Region)
      (memory : KvBatchIterator),
      poolStatus state.store.inUse state.store.deleted poolId = .poolInUse →
      poolId.toNat < store.maxPools → IterationReady store buffers poolIdBuf headerBuf →
      (∀ key lba, LivePair store state.store poolId key lba →
        OwnRange store state.store.media lba) →
      (∀ key lba, LivePair store state.store poolId key lba →
        (storedHeader store state.store.media lba).valueLen ≤ buffers.valueLen) →
      ∃ entries code after, (iteratePool store iter poolId buffers (.ok memory)).run
          (answerSystem store ()) state = some ((entries, code), after) ∧
        IteratesExactly store state.store poolId entries code := by
  intro all
  obtain ⟨entries, code, after, ran, exactly⟩ := all NvmKvStore.terabyteStore ⟨2, by decide⟩
    (copiesState true) 0 sectorBuffers (fun _ => 0) (fun _ => 0) iteratorMemory
    copiesState_used (by decide) sectorBuffers_ready
    (fun key lba live => (copiesMedia_own (copiesState_live live)).1)
    (fun key lba live => by
      have header := (copiesMedia_own (copiesState_live live)).2
      exact (congrArg NvmKvHeader.valueLen header).trans_le (by decide))
  obtain ⟨queue, found, iterated, took⟩ := takesAll_iteratePool () sectorBuffers_ready
    ⟨2, by decide⟩ iteratorMemory (@copiesState_used true)
  obtain rfl : found = entries := by
    rw [iterated] at ran
    exact congrArg (fun result => result.1.1) (Option.some.inj ran)
  have mapped : (copiesMedia true nextLba).isSome = true := by
    rw [copiesMedia_next]
    rfl
  obtain ⟨⟨range, run, starts, _⟩, _⟩ := copiesMedia_own mapped
  obtain ⟨inside, belongs, reads⟩ := @copies_range true range (starts ▸ mapped)
  obtain ⟨pair, listed, read⟩ := exists_entry took (mem_taken_poolRanges.mpr
    ⟨(run.narrow inside).mem, belongs, reads, fun other _ ends => by
      rw [copies_continue] at ends
      exact Bool.noConfusion ends⟩)
  have live := (exactly.sound pair listed).1
  rw [read.address, starts] at live
  have older : holds NvmKvStore.terabyteStore (copiesMedia true) 0 laterKey nextLba = true := by
    rw [holds_sector (by decide) copiesMedia_next,
      headerMatches_writeHeader _ _ _ _ _ _ _ _ _ (by decide)]
    rfl
  have same : pair.key = laterKey := (headerMatches_unique (holds_iff.mpr live.matched) older).2
  rw [same] at live
  have apart : sharedLba ≠ nextLba := by decide +kernel
  exact apart (copiesState_pair.unique live)

end Nvmkv
