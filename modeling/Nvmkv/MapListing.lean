import Nvmkv.TiledPools

/-!
# Listing a pool

A client that iterates over a pool and looks up every key sees the same map. In a pool that
its user keeps tidy the mapped ranges are the pairs of the pool, so the iteration goes over
all keys that have a value, takes each of them once, and takes the value that a lookup of
the key would get.

The number of keys that `kv_get_store_info` reports is the number of mapped ranges. There
it is the number of keys that have a value.
-/

namespace Nvmkv

variable {ι : Type}

section Entries

variable {store : NvmKvStore} {pool : UInt32} {sectors extents : List UInt8 → Nat}
  {state : StoreState ι} {map : PairKey → Option StoredContent} {key : List UInt8} {lba : Nat}

/-- What a client took of a pair: the key with the bytes of the value. -/
def CurrentPair.entry (pair : CurrentPair) : List UInt8 × List UInt8 :=
  (pair.key, pair.value.slice 0 pair.length)

/-- The keys of a pool with the bytes of their values. -/
def bytesOf (map : PairKey → Option StoredContent) (pool : UInt32) (key : List UInt8) :
    Option (List UInt8) :=
  (map (pool, key)).map StoredContent.bytes

/-- A whole pair is what the map has for its key. -/
theorem Represents.content
    (represents : Represents store (fun other => other = pool) state map)
    (whole : WholePair store state.media pool extents key lba) :
    ∃ content, map (pool, key) = some content ∧ HeldOnce store state.media pool key ∧
      KeptAt store state.media pool key lba content := by
  have keeps := represents.keeps pool key rfl whole.valid
  obtain ⟨content, has⟩ := Option.ne_none_iff_exists'.mp (keeps.held whole.probed whole.held)
  rw [has] at keeps
  obtain ⟨once, here, kept⟩ := keeps
  obtain rfl := once here kept.probed lba whole.probed kept.stored.held whole.held
  exact ⟨content, has, once, kept⟩

/-- What the map has for a key is a whole pair. -/
theorem Represents.wholePair
    (represents : Represents store (fun other => other = pool) state map)
    (sized : HasSectors store pool sectors map) (tiled : Tiled store state.media pool extents)
    {content : StoredContent} (has : map (pool, key) = some content) :
    ∃ lba, WholePair store state.media pool extents key lba := by
  obtain ⟨valid, _⟩ := sized key content has
  have keeps := represents.keeps pool key rfl valid
  rw [has] at keeps
  obtain ⟨_, lba, kept⟩ := keeps
  exact ⟨lba, tiled.whole key lba valid kept.probed kept.stored.held⟩

/-- A whole pair is alive where pairs do not expire. -/
theorem WholePair.live (whole : WholePair store state.media pool extents key lba)
    (disabled : store.expiryMode = .disableExpiry) {content : StoredContent}
    (once : HeldOnce store state.media pool key)
    (kept : KeptAt store state.media pool key lba content) :
    LivePair store state pool key lba := by
  constructor
  · exact whole.valid
  · exact kept.lookup once
  · simp [pairExpired, disabled]

/-- Its range is as long as its header tells. -/
theorem WholePair.exactly {media : Media} (whole : WholePair store media pool extents key lba)
    {content : StoredContent} (kept : KeptAt store media pool key lba content) :
    ExactlyPair store (storedHeader store media lba) ⟨lba, extents key⟩ := by
  have length := kept.stored.length
  have extent := whole.extent
  rcases kept.stored.placed with ⟨_, room⟩ | ⟨behind, _⟩
  · left
    rw [← length] at room
    refine ⟨room, ?_⟩
    have positive := store.capabilities.sector_positive
    have room : (storedHeader store media lba).valueOffset +
      (storedHeader store media lba).valueLen ≤ store.capabilities.nvmSectorSize := room
    have some := kept.positive
    rw [← extent, valueSectors]
    apply Nat.div_eq_of_lt_le <;> omega
  · right
    refine ⟨behind, ?_⟩
    rw [← extent, behind, valueSectors_behind, Nat.add_comm]

end Entries

section Iteration

variable {store : NvmKvStore} {thread : ι} {pool : UInt32} {sectors extents : List UInt8 → Nat}
  {state : StoreState ι} {map : PairKey → Option StoredContent}

/-- No header of a pair ends an iteration. -/
theorem WholePair.continues {media : Media} {range : NvmBlockRange} {key : List UInt8}
    (known : pool.toNat < store.maxPools)
    (whole : WholePair store media pool extents key range.startLba) :
    endsIteration store media pool range = false := by
  have header : (rangeHeader store media range).poolId = pool.toNat :=
    (holds_iff.mp whole.held).poolId
  have bounded : store.maxPools ≤ 1048576 := store.poolsBounded
  have positive : ¬asInt pool.toNat < 0 := by
    have small : pool.toNat < 2 ^ 31 := by omega
    rw [asInt, BitVec.toInt_eq_toNat_of_lt (by simp; omega)]
    simp
  rw [endsIteration, header, decide_eq_false positive, Bool.and_false]

/-- What a client took at a whole pair is the pair. -/
theorem WholePair.takes {key : List UInt8} {range : NvmBlockRange} {pair : CurrentPair}
    {bufferLen : Nat} (disabled : store.expiryMode = .disableExpiry)
    (represents : Represents store (fun other => other = pool) state map)
    (whole : WholePair store state.media pool extents key range.startLba)
    (length : range.length = extents key) (took : TakenFrom store state.media bufferLen range pair)
    (large : ∀ key content, map (pool, key) = some content → content.bytes.length ≤ bufferLen) :
    pair.key = key ∧ bytesOf map pool key = some pair.entry.2 := by
  obtain ⟨content, has, once, kept⟩ := represents.content whole
  have room := large key content has
  rw [← kept.stored.length] at room
  have exactly := whole.exactly kept
  rw [← length] at exactly
  obtain ⟨same, address, isPair⟩ := (whole.live disabled once kept).taken took rfl exactly room
  refine ⟨same, ?_⟩
  rw [bytesOf, has, Option.map_some, CurrentPair.entry, Option.some.injEq]
  have count : pair.length = content.bytes.length := by
    rw [isPair.length, address, kept.stored.length]
  apply List.ext_getElem
  · simp [count]
  · intro i inside taken
    have within : i < pair.length := by omega
    have value := isPair.value i within
    rw [address, kept.stored.value i inside] at value
    simp [Region.slice, value, Region.ofList, inside]

/-- In a tidy pool a client takes the pairs of the map. Every range is that of a whole pair, and the
client stops at it. -/
theorem enumerates_of_tiled {iter : LogicalIterRanges} {buffers : IterationBuffers}
    {poolIdBuf headerBuf : Region} {memory : KvBatchIterator} {mgr : NvmKvPoolMgr}
    {poolMedia : PoolMedia} (disabled : store.expiryMode = .disableExpiry)
    (known : pool.toNat < store.maxPools) (tiled : Tiled store state.media pool extents)
    (represents : Represents store (fun other => other = pool) state map)
    (sized : HasSectors store pool sectors map)
    (used : poolStatus state.inUse state.deleted pool = .poolInUse)
    (ready : IterationReady store buffers poolIdBuf headerBuf)
    (large : ∀ key content, map (pool, key) = some content →
      content.bytes.length ≤ buffers.valueLen) :
    ∃ entries after, (iteratePool store iter pool buffers (.ok memory)).run
        (answerSystem store thread) ⟨state, mgr, poolMedia⟩ =
          some ((entries, NvmErrorCode.objectNotFound.retCode), after) ∧
      Enumerates (entries.map CurrentPair.entry) (bytesOf map pool) := by
  obtain ⟨queue, entries, ran, took⟩ := @takesAll_iteratePool ι store thread pool buffers
    poolIdBuf headerBuf ready iter ⟨state, mgr, poolMedia⟩ memory used
  have apart := entries_apart took (poolRanges_ordered.sublist (taken_sublist _))
  have continues : ∀ range ∈ state.media.logicalRanges store.usrData,
      endsIteration store state.media pool range = false := by
    intro range member
    obtain ⟨key, whole, _⟩ := (tiled.mem_logicalRanges known).mp member
    exact whole.continues known
  have ended : (taken store state.media pool state.clock
      (poolRanges store state.media pool)).2 = NvmErrorCode.objectNotFound.retCode := by
    apply taken_code_poolRanges.mpr
    intro range member ends
    rw [continues range member] at ends
    cases ends
  have takes : ∀ range, range ∈ (taken store state.media pool state.clock
      (poolRanges store state.media pool)).1 ↔
        ∃ key, WholePair store state.media pool extents key range.startLba ∧
          range.length = extents key := by
    intro range
    rw [mem_taken_poolRanges, tiled.mem_logicalRanges known]
    constructor
    · exact fun taken => taken.1
    · rintro ⟨key, whole, length⟩
      obtain ⟨content, _, once, kept⟩ := represents.content whole
      have live := whole.live disabled once kept
      refine ⟨⟨key, whole, length⟩, live.ofPool known rfl, live.readsAsPair rfl, ?_⟩
      intro other member ends
      rw [continues other member] at ends
      cases ends
  have entry : ∀ pair ∈ entries, bytesOf map pool pair.key = some pair.entry.2 ∧
      holds store state.media pool pair.key pair.keyLoc = true ∧
        pair.keyLoc ∈ store.probes pool pair.key ∧
          HeldOnce store state.media pool pair.key := by
    intro pair listed
    obtain ⟨range, member, read⟩ := exists_range took listed
    obtain ⟨key, whole, length⟩ := (takes range).mp member
    obtain ⟨rfl, bytes⟩ := whole.takes disabled represents length read large
    obtain ⟨_, _, once, _⟩ := represents.content whole
    rw [read.address]
    exact ⟨bytes, whole.held, whole.probed, once⟩
  refine ⟨entries, _, ended ▸ ran, ?_, ?_⟩
  · rw [List.map_map, List.Nodup, List.pairwise_map]
    refine apart.imp_of_mem fun {first second} member other different same => different ?_
    obtain ⟨_, held, probed, once⟩ := entry first member
    obtain ⟨_, otherHeld, otherProbed, _⟩ := entry second other
    have same : first.key = second.key := same
    rw [same] at held probed once
    exact once _ probed _ otherProbed held otherHeld
  · intro key bytes
    rw [List.mem_map]
    constructor
    · rintro ⟨pair, listed, same⟩
      obtain ⟨has, _⟩ := entry pair listed
      rw [CurrentPair.entry, Prod.mk.injEq] at same
      obtain ⟨rfl, rfl⟩ := same
      exact has
    · intro has
      obtain ⟨content, stored, rfl⟩ := Option.map_eq_some_iff.mp has
      obtain ⟨lba, whole⟩ := represents.wholePair sized tiled stored
      obtain ⟨pair, listed, read⟩ := exists_entry took
        ((takes ⟨lba, extents key⟩).mpr ⟨key, whole, rfl⟩)
      obtain ⟨rfl, same⟩ := whole.takes disabled represents rfl read large
      rw [has, Option.some.injEq] at same
      exact ⟨pair, listed, Prod.ext rfl same.symm⟩

end Iteration

/-- An iteration over a tidy pool lists the map: from an empty store on, after every run of puts,
lookups and deletes, a client that iterates over the pool comes to the end, and has then taken
every key that has a value once, with the bytes that were put last. -/
theorem iteration_lists_map (store : NvmKvStore) (iter : LogicalIterRanges) (thread : ι)
    (pool : UInt32) (sectors extents : List UInt8 → Nat) (keys : List UInt8 → Prop)
    (noCache : store.cacheSize = 0) (disabled : store.expiryMode = .disableExpiry)
    (limited : PowerOfTwoLimit store.capabilities) (known : pool.toNat < store.maxPools)
    (start : StoreState ι) (state : SystemState ι) (idle : Idle start)
    (blank : ∀ l, start.media l = none) (trace : List PairEvent)
    (run : TracedRun (UserStep store thread fun call _ =>
      TidyCall store pool sectors extents keys call) start trace state.store)
    (used : poolStatus state.store.inUse state.store.deleted pool = .poolInUse)
    (buffers : IterationBuffers) (poolIdBuf headerBuf : Region) (memory : KvBatchIterator)
    (ready : IterationReady store buffers poolIdBuf headerBuf)
    (large : ∀ key content, MapEvent.latest (pool, key) trace = some content →
      content.bytes.length ≤ buffers.valueLen) :
    ∃ entries after, (iteratePool store iter pool buffers (.ok memory)).run
        (answerSystem store thread) state =
          some ((entries, NvmErrorCode.objectNotFound.retCode), after) ∧
      Enumerates (entries.map CurrentPair.entry)
        (bytesOf (fun key => MapEvent.latest key trace) pool) := by
  obtain ⟨map, makes, tiled, represents, sized⟩ := tiled_of_run noCache disabled limited
    ready.vectors idle blank run
  have latest : map = fun key => MapEvent.latest key trace := funext makes.latest
  subst latest
  exact enumerates_of_tiled disabled known tiled represents sized used ready large

/-- A put of the key `a` with a value of one byte is tidy: no address of the key lies in the
metadata. -/
theorem sectorKey_tidy : TidyCall NvmKvStore.terabyteStore 0 (fun _ => 1) (fun _ => 1)
    (fun key => key = [97]) (.kvPut 0 (bytePair [97]) plentyMemory) := by
  constructor
  · exact ⟨rfl, Or.inl (bytePair_fits (by decide)), by decide⟩
  · rfl
  · exact Or.inl fun _ _ first second _ => first.trans second.symm
  · rintro _ _ _ ⟨rfl, rfl, rfl⟩
    decide
  · rintro _ _ _ ⟨rfl, rfl, rfl⟩
    change ∀ i, i < 8 → _
    decide +kernel

/-- The pool of the key `a` is listed after its first put. -/
theorem iteration_lists_map_first : ∃ (state : StoreState Unit) (entries : List CurrentPair)
      (after : SystemState Unit),
    (iteratePool NvmKvStore.terabyteStore ⟨2, by decide⟩ 0 sectorBuffers (.ok iteratorMemory)).run
        (answerSystem NvmKvStore.terabyteStore ()) { copiesState false with store := state } =
          some ((entries, NvmErrorCode.objectNotFound.retCode), after) ∧
      ([97], [1]) ∈ entries.map CurrentPair.entry := by
  obtain ⟨state, run, continues, _⟩ := @firstKey_stored [97]
    (fun call _ => TidyCall NvmKvStore.terabyteStore 0 (fun _ => 1) (fun _ => 1)
      (fun key => key = [97]) call) (by decide) ⟨_, rfl⟩ sectorKey_tidy
  have used : poolStatus state.inUse state.deleted 0 = .poolInUse := by
    rw [continues.inUse, continues.deleted]
    rfl
  obtain ⟨entries, after, ran, lists⟩ := iteration_lists_map NvmKvStore.terabyteStore
    ⟨2, by decide⟩ () 0 (fun _ => 1) (fun _ => 1) (fun key => key = [97]) rfl rfl
    ⟨⟨10, by decide⟩, by decide⟩ (by decide) _ { copiesState false with store := state }
    (fun _ => rfl) (fun _ => rfl) _ run used sectorBuffers (fun _ => 0) (fun _ => 0)
    iteratorMemory sectorBuffers_ready (by
      intro key content has
      simp only [MapEvent.latest, List.foldl_cons, List.foldl_nil, MapEvent.content] at has
      split_ifs at has
      cases has
      decide)
  exact ⟨state, entries, after, ran, (lists.exact [97] [1]).mpr (by decide)⟩

end Nvmkv
