import Nvmkv.PoolRestart
import Nvmkv.StoreOpening

/-!
# Crashes while a store is created

The first opening of a store writes its metadata, then the tags of its pools in as many
batches as they need, and the two bitmaps in a last batch. A later opening asks for the
metadata only and then reads the bitmaps, whether they were written or not. It also sets
the bit of the default pool, but in memory and before the bitmaps are read over it.

When the process stops between the first write and the last one, the store is therefore
opened with what the device had at the place of the bitmaps. On a blank device the
default pool is not in use then, and the next pool that is created gets its id.
-/

namespace Nvmkv

/-- What the media hold of a store apart from its pairs. -/
structure StoreMedia where
  metadata : Option NvmKvStoreMetadata
  inUse : KvBitmap
  deleted : KvBitmap
  poolTags : Nat → NvmKvPoolTag

/-- The regions of the pool manager, whose count of pools is kept in the metadata. -/
def StoreMedia.pools (media : StoreMedia) (metadata : NvmKvStoreMetadata) : PoolMedia where
  inUse := media.inUse
  deleted := media.deleted
  poolTags := media.poolTags
  totalNoPools := metadata.totalNoPools

/-- What one atomic write may carry in all (`nvm_atomic_write_max_total_size`). Creation
does not come to its end on a device that may carry nothing. -/
abbrev AtomicWriteMaxTotalSize := { size : Nat // 0 < size }

/-- The vectors of one write of tags, as their place and length in bytes, with the length
that remains and the vectors counted so far. `vectors` is the number that may still be
filled. -/
def fillPoolTags (store : NvmKvStore) (maxTotalSize : Nat) :
    (vectors remainingLen count totalLenPerWrite : Nat) → List (Nat × Nat) × Nat × Nat
  | 0, remainingLen, count, _ => ([], remainingLen, count)
  | vectors + 1, remainingLen, count, totalLenPerWrite =>
      let maxWriteSizePerIov := store.capabilities.maxWriteSize
      if remainingLen ≠ 0 ∧ totalLenPerWrite < maxTotalSize then
        let vectorSize :=
          if remainingLen < maxWriteSizePerIov then remainingLen else maxWriteSizePerIov
        let (iov, left) := fillPoolTags store maxTotalSize vectors (remainingLen - vectorSize)
          (count + 1) (totalLenPerWrite + vectorSize)
        ((count * maxWriteSizePerIov, vectorSize) :: iov, left)
      else ([], remainingLen, count)

/-- The writes of all tags (`persist_pool_tags`). Every write takes at least one byte, so
that the length bounds their number. -/
def persistPoolTagsLoop (store : NvmKvStore) (maxTotalSize : Nat) :
    (fuel remainingLen count : Nat) → List (List (Nat × Nat))
  | 0, _, _ => []
  | fuel + 1, remainingLen, count =>
      if remainingLen = 0 then []
      else
        let (iov, remainingLen, count) :=
          fillPoolTags store maxTotalSize store.capabilities.nvmMaxNumIovs remainingLen count 0
        iov :: persistPoolTagsLoop store maxTotalSize fuel remainingLen count

/-- The places and lengths of the vectors by which all tags are written, one list for each write
(`persist_pool_tags`). -/
def persistPoolTags (store : NvmKvStore) (maxTotalSize : AtomicWriteMaxTotalSize) :
    List (List (Nat × Nat)) :=
  persistPoolTagsLoop store maxTotalSize.val store.poolTagsLen store.poolTagsLen 0

/-- A vector takes the tags that start in it. -/
def takesTag (iov : List (Nat × Nat)) (pool : Nat) : Bool :=
  iov.any fun vector => vector.1 ≤ pool * poolTagSize ∧ pool * poolTagSize < vector.1 + vector.2

/-- The tags of the media after one write of them. -/
def writeTags (memory : Nat → NvmKvPoolTag) (iov : List (Nat × Nat))
    (media : Nat → NvmKvPoolTag) : Nat → NvmKvPoolTag := fun pool =>
  if takesTag iov pool then memory pool else media pool

/-- The writes of a first opening in their order: the metadata, the tags, whose memory is
not initialised, and the bitmaps. -/
def creationWrites (store : NvmKvStore) (maxTotalSize : AtomicWriteMaxTotalSize)
    (args : OpenArguments) (poolTags : Nat → NvmKvPoolTag) : List (StoreMedia → StoreMedia) :=
  let mgr := NvmKvPoolMgr.created poolTags
  (fun media => { media with metadata := some args.newMetadata }) ::
    (persistPoolTags store maxTotalSize).map (fun iov media =>
      { media with poolTags := writeTags mgr.poolTags iov media.poolTags }) ++
    [fun media =>
      { media with
        inUse := store.writeBitmap none mgr.inUse media.inUse
        deleted := store.writeBitmap none mgr.deleted media.deleted }]

/-- The media after some writes, one after the other. -/
def StoreMedia.after (media : StoreMedia) (writes : List (StoreMedia → StoreMedia)) :
    StoreMedia :=
  writes.foldl (fun media write => write media) media

/-- Open a store that the media have: read its metadata, and its pools over the memory of
the manager (`initialize` with `create_new` false). -/
def reopenPools (store : NvmKvStore) (args : OpenArguments) (stored : NvmKvStoreMetadata)
    (media : StoreMedia) : Except NvmErrorCode NvmKvPoolMgr :=
  match openMetadata args (some stored) with
  | .error code => .error code
  | .ok metadata => NvmKvPoolMgr.restore store (media.pools metadata)

section Tags

variable {store : NvmKvStore}

/-- One write of tags takes the bytes from its start on, as many as the remaining length shrinks by;
the next start is behind them while bytes remain. Induction follows the vectors. The last vector may
be shorter, and nothing remains behind it. -/
theorem fillPoolTags_takes (maxTotalSize vectors remainingLen count totalLen : Nat) :
    ∃ taken, taken ≤ remainingLen ∧
      (fillPoolTags store maxTotalSize vectors remainingLen count totalLen).2.1 =
        remainingLen - taken ∧
      (taken < remainingLen →
        (fillPoolTags store maxTotalSize vectors remainingLen count totalLen).2.2 *
          store.capabilities.maxWriteSize = count * store.capabilities.maxWriteSize + taken) ∧
      (0 < vectors → 0 < remainingLen → totalLen < maxTotalSize → 0 < taken) ∧
      ∀ pool,
        takesTag (fillPoolTags store maxTotalSize vectors remainingLen count totalLen).1 pool =
        decide (count * store.capabilities.maxWriteSize ≤ pool * poolTagSize ∧
          pool * poolTagSize < count * store.capabilities.maxWriteSize + taken) := by
  have positive : 0 < store.capabilities.maxWriteSize := store.capabilities.writePositive
  induction vectors generalizing remainingLen count totalLen with
  | zero =>
    refine ⟨0, Nat.zero_le _, rfl, fun _ => rfl, fun none => absurd none (Nat.lt_irrefl 0), ?_⟩
    intro pool
    simp only [fillPoolTags, takesTag, List.any_nil]
    symm
    rw [decide_eq_false_iff_not]
    omega
  | succ vectors inductionHypothesis =>
    by_cases fills : remainingLen ≠ 0 ∧ totalLen < maxTotalSize
    · obtain ⟨size, vectorSize⟩ : ∃ size, size =
          if remainingLen < store.capabilities.maxWriteSize then remainingLen
          else store.capabilities.maxWriteSize := ⟨_, rfl⟩
      have bounds : 0 < size ∧ size ≤ remainingLen ∧
          (size < remainingLen → size = store.capabilities.maxWriteSize) := by
        rw [vectorSize]
        split <;> omega
      obtain ⟨taken, inside, remains, next, -, takes⟩ :=
        inductionHypothesis (remainingLen - size) (count + 1) (totalLen + size)
      rw [Nat.succ_mul] at next takes
      refine ⟨size + taken, by omega, ?_, ?_, fun _ _ _ => by omega, ?_⟩
      · simp only [fillPoolTags, if_pos fills, ← vectorSize, remains]
        omega
      · intro less
        simp only [fillPoolTags, if_pos fills, ← vectorSize]
        rw [next (by omega), bounds.2.2 (by omega)]
        omega
      · intro pool
        have rest := takes pool
        unfold takesTag at rest ⊢
        simp only [fillPoolTags, if_pos fills, ← vectorSize, List.any_cons, rest]
        rw [← Bool.decide_or, decide_eq_decide]
        by_cases last : size < remainingLen
        · rw [bounds.2.2 last]
          omega
        · omega
    · refine ⟨0, Nat.zero_le _, ?_, ?_, ?_, ?_⟩
      · simp only [fillPoolTags, if_neg fills, Nat.sub_zero]
      · intro _
        simp only [fillPoolTags, if_neg fills, Nat.add_zero]
      · intro _ remains room
        exact absurd ⟨Nat.ne_of_gt remains, room⟩ fills
      · intro pool
        simp only [fillPoolTags, if_neg fills, takesTag, List.any_nil]
        symm
        rw [decide_eq_false_iff_not]
        omega

/-- All writes of tags together take the bytes that remain. Induction follows the
writes. -/
theorem persistPoolTagsLoop_takes {maxTotalSize : Nat} (carries : 0 < maxTotalSize)
    (fuel remainingLen count : Nat) (enough : remainingLen ≤ fuel) (pool : Nat) :
    (persistPoolTagsLoop store maxTotalSize fuel remainingLen count).any (takesTag · pool) =
      decide (count * store.capabilities.maxWriteSize ≤ pool * poolTagSize ∧
        pool * poolTagSize < count * store.capabilities.maxWriteSize + remainingLen) := by
  induction fuel generalizing remainingLen count with
  | zero =>
    symm
    rw [persistPoolTagsLoop, List.any_nil, decide_eq_false_iff_not]
    omega
  | succ fuel inductionHypothesis =>
    by_cases empty : remainingLen = 0
    · symm
      rw [persistPoolTagsLoop, if_pos empty, List.any_nil, decide_eq_false_iff_not]
      omega
    · obtain ⟨taken, inside, remains, next, some, takes⟩ := @fillPoolTags_takes store maxTotalSize
        store.capabilities.nvmMaxNumIovs remainingLen count 0
      have first := takes pool
      have progress := some store.capabilities.iovsPositive (Nat.pos_of_ne_zero empty) carries
      have rest := inductionHypothesis (remainingLen - taken)
        (fillPoolTags store maxTotalSize store.capabilities.nvmMaxNumIovs remainingLen count 0).2.2
        (by omega)
      simp only [persistPoolTagsLoop, if_neg empty, List.any_cons, remains, rest, first]
      rw [← Bool.decide_or, decide_eq_decide]
      by_cases last : taken < remainingLen
      · rw [next last]
        omega
      · omega

/-- A tag has the value of the memory when some write takes it. -/
theorem writeTags_foldl (memory : Nat → NvmKvPoolTag) (writes : List (List (Nat × Nat)))
    (media : Nat → NvmKvPoolTag) (pool : Nat) :
    writes.foldl (fun tags iov => writeTags memory iov tags) media pool =
      if writes.any (takesTag · pool) then memory pool else media pool := by
  induction writes generalizing media with
  | nil => rfl
  | cons iov rest inductionHypothesis =>
    rw [List.foldl_cons, inductionHypothesis, List.any_cons]
    cases takes : takesTag iov pool with
    | true =>
      have written : writeTags memory iov media pool = memory pool := if_pos takes
      rw [written, Bool.true_or, if_pos rfl, ite_self]
    | false =>
      have kept : writeTags memory iov media pool = media pool :=
        if_neg fun taken => Bool.false_ne_true (takes.symm.trans taken)
      rw [kept, Bool.false_or]

/-- The writes of tags write all tags. -/
theorem persistPoolTags_writes (maxTotalSize : AtomicWriteMaxTotalSize)
    (memory media : Nat → NvmKvPoolTag) :
    (persistPoolTags store maxTotalSize).foldl (fun tags iov => writeTags memory iov tags) media =
      store.writePoolTags none memory media := by
  funext pool
  have takes := @persistPoolTagsLoop_takes store _ maxTotalSize.property store.poolTagsLen
    store.poolTagsLen 0 le_rfl pool
  rw [writeTags_foldl, persistPoolTags, takes, NvmKvStore.writePoolTags]
  simp only [Nat.zero_mul, Nat.zero_le, true_and, Nat.zero_add, decide_eq_true_eq]

end Tags

section Writes

variable {store : NvmKvStore} {maxTotalSize : AtomicWriteMaxTotalSize} {args : OpenArguments}
  {poolTags : Nat → NvmKvPoolTag}

/-- Writing tags touches nothing else. -/
theorem after_tags (memory : Nat → NvmKvPoolTag) (writes : List (List (Nat × Nat)))
    (media : StoreMedia) :
    media.after (writes.map fun iov media =>
        { media with poolTags := writeTags memory iov media.poolTags }) =
      { media with
        poolTags := writes.foldl (fun tags iov => writeTags memory iov tags) media.poolTags } := by
  induction writes generalizing media with
  | nil => rfl
  | cons iov rest inductionHypothesis =>
    rw [List.map_cons, StoreMedia.after, List.foldl_cons]
    exact inductionHypothesis _

/-- After some of the writes but not the last one, the media have the metadata, and the
bitmaps that they had before. -/
theorem after_some_writes (media : StoreMedia) {cut : Nat} (first : 0 < cut)
    (last : cut < (creationWrites store maxTotalSize args poolTags).length) :
    ∃ tags, media.after ((creationWrites store maxTotalSize args poolTags).take cut) =
      { media with metadata := some args.newMetadata, poolTags := tags } := by
  obtain ⟨pieces, rfl⟩ : ∃ pieces, cut = pieces + 1 := ⟨cut - 1, by omega⟩
  have few : pieces ≤ ((persistPoolTags store maxTotalSize).map fun iov (media : StoreMedia) =>
      { media with
        poolTags :=
          writeTags (NvmKvPoolMgr.created poolTags).poolTags iov media.poolTags }).length := by
    simp only [creationWrites, List.cons_append, List.length_cons, List.length_append,
      List.length_nil] at last
    omega
  simp only [creationWrites, List.cons_append, List.take_succ_cons, StoreMedia.after,
    List.foldl_cons]
  rw [List.take_append_of_le_length few, ← List.map_take]
  exact ⟨_, after_tags _ _ _⟩

/-- All writes together leave what a store that was just created has written. -/
theorem after_all_writes (media : StoreMedia) :
    media.after (creationWrites store maxTotalSize args poolTags) =
      { metadata := some args.newMetadata
        inUse := (PoolState.created store poolTags (media.pools args.newMetadata)).media.inUse
        deleted := (PoolState.created store poolTags (media.pools args.newMetadata)).media.deleted
        poolTags :=
          (PoolState.created store poolTags (media.pools args.newMetadata)).media.poolTags } := by
  simp only [creationWrites, List.cons_append, StoreMedia.after, List.foldl_cons, List.foldl_append,
    List.foldl_nil]
  have tags := after_tags (NvmKvPoolMgr.created poolTags).poolTags
    (persistPoolTags store maxTotalSize) { media with metadata := some args.newMetadata }
  rw [StoreMedia.after] at tags
  rw [tags, persistPoolTags_writes]
  rfl

end Writes

/-- The states that an opened manager reaches, whatever becomes of its writes. The walk
over the ids to clear starts behind the default pool, so that it is dropped from a copy of
the deletion bits. -/
inductive PoolState.ReachedFrom (store : NvmKvStore) (start : PoolState) : PoolState → Prop where
  | start : ReachedFrom store start start
  | step {written : Bool} {state next : PoolState} (before : ReachedFrom store start state)
      (taken : Step store written state next) :
      ReachedFrom store start { next with pending := Function.update next.pending 0 false }

/-- The default pool is in use, waits for nothing, and no tag leads to it. -/
structure DefaultInUse (mgr : NvmKvPoolMgr) : Prop where
  inUse : bitmapTest mgr.inUse 0 = true
  unnamed : ∀ s, mgr.tagsMap s ≠ some 0

namespace DefaultInUse

variable {store : NvmKvStore} {mgr changed : NvmKvPoolMgr}

/-- That the default pool is in use rests on its bit and on the map of tags. -/
theorem congr (kept : DefaultInUse mgr)
    (inUse : bitmapTest changed.inUse 0 = bitmapTest mgr.inUse 0)
    (tagsMap : changed.tagsMap = mgr.tagsMap) : DefaultInUse changed :=
  ⟨inUse.trans kept.inUse, tagsMap ▸ kept.unnamed⟩

/-- No id but a clear one or one that a tag leads to is given out. -/
theorem createPool_other (kept : DefaultInUse mgr) (poolTag : Option NvmKvPoolTag)
    (written : Bool) (media : PoolMedia) :
    (mgr.createPool store poolTag written media).1 ≠ .ok 0 := by
  obtain ⟨poolId, known, result⟩ | ⟨_, result⟩ | ⟨poolId, _, _, clear, result⟩ :=
    mgr.createPool_cases store poolTag written media
  · rw [result]
    rintro ⟨⟩
    cases poolTag with
    | none => cases known
    | some tag =>
      simp only [NvmKvPoolMgr.knownPool] at known
      split_ifs at known
      exact kept.unnamed _ known
  · rw [result]
    intro wrong
    cases wrong
  · have other : poolId ≠ 0 := by
      rintro rfl
      rw [kept.inUse] at clear
      exact Bool.noConfusion clear
    rw [result]
    cases written with
    | true =>
      intro given
      exact other (Except.ok.inj given)
    | false =>
      intro wrong
      cases wrong

/-- Giving another id to a pool leaves the default one in use. -/
theorem allocated (kept : DefaultInUse mgr) (poolTag : Option NvmKvPoolTag) {poolId : Nat}
    (other : poolId ≠ 0) : DefaultInUse (mgr.allocated poolTag poolId) := by
  constructor
  · simp [NvmKvPoolMgr.allocated, bitmapTest_set, kept.inUse]
  · intro s
    cases poolTag with
    | none => exact kept.unnamed s
    | some tag =>
      simp only [NvmKvPoolMgr.allocated, TagsMap.insert]
      split_ifs
      · exact kept.unnamed s
      · by_cases own : s = tag.str
        · rw [own, Function.update_self]
          exact fun same => other (Option.some.inj same)
        · rw [Function.update_of_ne own]
          exact kept.unnamed s
      · exact kept.unnamed s

/-- So does a creation: the id that it finds is clear. -/
theorem createPool (kept : DefaultInUse mgr) (poolTag : Option NvmKvPoolTag) (written : Bool)
    (media : PoolMedia) : DefaultInUse (mgr.createPool store poolTag written media).2.1 := by
  obtain ⟨poolId, _, result⟩ | ⟨_, result⟩ | ⟨poolId, _, _, clear, result⟩ :=
    mgr.createPool_cases store poolTag written media
  · rw [result]
    exact kept
  · rw [result]
    exact kept
  · have other : poolId ≠ 0 := by
      rintro rfl
      rw [kept.inUse] at clear
      exact Bool.noConfusion clear
    have grown := kept.allocated poolTag other
    rw [result]
    cases written with
    | true => exact grown
    | false =>
      refine grown.congr ?_ rfl
      simp [NvmKvPoolMgr.createFailed, Nat.pos_of_ne_zero other, bitmapTest_clear, Ne.symm other]

/-- So does a mark, which the default pool is not given. -/
theorem markDeleted (kept : DefaultInUse mgr) (poolId : Nat) :
    DefaultInUse (mgr.markDeleted poolId) := by
  rw [NvmKvPoolMgr.markDeleted]
  split
  · refine ⟨kept.inUse, fun s => ?_⟩
    simp only [TagsMap.erase]
    by_cases own : s = (mgr.poolTags poolId).str
    · rw [own, Function.update_self]
      exact (Option.some_ne_none _).symm
    · rw [Function.update_of_ne own]
      exact kept.unnamed s
  · exact kept

/-- So does the undoing of a mark. -/
theorem unmarkDeleted (kept : DefaultInUse mgr) (poolId : Nat) :
    DefaultInUse (mgr.unmarkDeleted poolId) := by
  rw [NvmKvPoolMgr.unmarkDeleted]
  split
  · exact kept.congr rfl rfl
  · exact kept

/-- So does the call that marks a pool, or all of them. -/
theorem kvPoolDelete (kept : DefaultInUse mgr) (poolId : UInt32) (written : Bool)
    (media : PoolMedia) : DefaultInUse (mgr.kvPoolDelete store poolId written media).2.1 := by
  obtain ⟨same, -⟩ | ⟨_, result⟩ := mgr.kvPoolDelete_cases store poolId written media
  · rw [same]
    exact kept
  · have marked : DefaultInUse
        ((NvmKvPoolMgr.idsToDelete store poolId).foldl NvmKvPoolMgr.markDeleted mgr) :=
      foldl_keeps DefaultInUse kept fun _ kept id _ => kept.markDeleted id
    rw [result]
    cases written with
    | true => exact marked
    | false =>
      exact foldl_keeps DefaultInUse marked fun _ kept id _ => kept.unmarkDeleted id

/-- So does the clearing of marked pools. -/
theorem clearPoolBitmaps (kept : DefaultInUse mgr) (clearPoolBitmap : KvBitmap) (written : Bool)
    (media : PoolMedia) :
    DefaultInUse (mgr.clearPoolBitmaps store clearPoolBitmap written media).2.1 := by
  have zeroed : DefaultInUse
      (if NvmKvPoolMgr.sameBitmap store mgr.deleted clearPoolBitmap then
        { mgr with deleted := fun word => if word * 4 < store.bmLen then 0 else mgr.deleted word }
      else mgr) := by
    split
    · exact kept.congr rfl rfl
    · exact kept
  have walked : ∀ state, DefaultInUse state → ∀ id ∈ List.range' 1 (store.maxPools - 1),
      DefaultInUse (NvmKvPoolMgr.clearStep clearPoolBitmap
        (NvmKvPoolMgr.sameBitmap store mgr.deleted clearPoolBitmap) state id) := by
    intro state kept id member
    rw [List.mem_range'_1] at member
    rw [NvmKvPoolMgr.clearStep]
    split
    · refine kept.congr ?_ rfl
      have other : 0 ≠ id := by omega
      simp [bitmapTest_clear, other]
    · exact kept
  have cleared := foldl_keeps DefaultInUse zeroed walked
  cases written with
  | true => exact cleared
  | false => exact cleared.congr rfl rfl

/-- So does the clearing of one pool besides the default one. -/
theorem clearPoolBitmap (kept : DefaultInUse mgr) {poolId : Nat} (other : poolId ≠ 0)
    (written : Bool) (media : PoolMedia) :
    DefaultInUse (mgr.clearPoolBitmap store poolId written media).2.1 := by
  refine kept.congr ?_ rfl
  simp [NvmKvPoolMgr.clearPoolBitmap, bitmapTest_clear, Ne.symm other]

/-- Every step keeps the default pool in use, unless that pool waits to be cleared. -/
theorem step {written : Bool} {state next : PoolState} (kept : DefaultInUse state.mgr)
    (waits : state.pending 0 = false) (taken : PoolState.Step store written state next) :
    DefaultInUse next.mgr := by
  cases taken with
  | create poolTag free => exact kept.createPool poolTag written state.media
  | delete poolId free => exact kept.kvPoolDelete poolId written state.media
  | snapshot free => exact kept
  | clearBitmap clearPoolBitmap free due => exact kept.clearPoolBitmaps _ written state.media
  | clearId poolId free due =>
    refine @clearPoolBitmap store _ kept _ ?_ written state.media
    rintro rfl
    rw [waits] at due
    exact Bool.noConfusion due

/-- In every state reached the default pool is in use. Induction follows the steps. -/
theorem reached {start state : PoolState} (kept : DefaultInUse start.mgr)
    (waits : start.pending 0 = false) (run : PoolState.ReachedFrom store start state) :
    DefaultInUse state.mgr ∧ state.pending 0 = false := by
  induction run with
  | start => exact ⟨kept, waits⟩
  | step _ taken inductionHypothesis =>
    have after := inductionHypothesis.1.step inductionHypothesis.2 taken
    exact ⟨after, by simp only [Function.update_self]⟩

end DefaultInUse

section Restore

variable {store : NvmKvStore} {media : PoolMedia}

/-- The bits of the pools are read back as the media have them. -/
theorem readBack_bits {i : Nat} (bounded : i < store.maxPools) :
    bitmapTest (NvmKvPoolMgr.readBack store media).inUse i = bitmapTest media.inUse i ∧
      bitmapTest (NvmKvPoolMgr.readBack store media).deleted i = bitmapTest media.deleted i := by
  have inside := store.word_inside bounded
  simp only [bitmapTest_eq, NvmKvPoolMgr.readBack, if_pos inside, and_self]

/-- Pools are restored when those marked for deletion are in use. -/
theorem restore_ok_iff :
    (∃ mgr, NvmKvPoolMgr.restore store media = .ok mgr) ↔
      ∀ i, 0 < i → i < store.maxPools → bitmapTest media.deleted i = true →
        bitmapTest media.inUse i = true := by
  rw [NvmKvPoolMgr.restore]
  dsimp only
  split
  · rename_i inconsistent
    constructor
    · rintro ⟨mgr, wrong⟩
      cases wrong
    · intro consistent
      obtain ⟨i, member, marked⟩ := List.any_eq_true.mp inconsistent
      rw [List.mem_range'_1] at member
      obtain ⟨inUse, deleted⟩ := @readBack_bits store media i (by omega)
      rw [inUse, deleted, Bool.and_eq_true, Bool.not_eq_true'] at marked
      rw [consistent i member.1 (by omega) marked.1] at marked
      exact Bool.noConfusion marked.2
  · rename_i consistent
    refine ⟨fun _ i positive bounded marked => ?_, fun _ => ⟨_, rfl⟩⟩
    obtain ⟨inUse, deleted⟩ := @readBack_bits store media i bounded
    rw [Bool.not_eq_true, List.any_eq_false] at consistent
    have agrees := consistent i (by rw [List.mem_range'_1]; omega)
    rw [inUse, deleted, marked, Bool.true_and, Bool.not_eq_true', Bool.not_eq_false] at agrees
    exact agrees

/-- A restored manager has the default pool's bit of the media and no tag for it. -/
theorem restore_default {mgr : NvmKvPoolMgr}
    (restored : NvmKvPoolMgr.restore store media = .ok mgr) :
    bitmapTest mgr.inUse 0 = bitmapTest media.inUse 0 ∧ ∀ s, mgr.tagsMap s ≠ some 0 := by
  rw [NvmKvPoolMgr.restore] at restored
  dsimp only at restored
  split at restored
  · cases restored
  · cases restored
    refine ⟨(readBack_bits store.poolsPositive).1, ?_⟩
    dsimp only
    refine foldl_keeps (fun tagsMap : TagsMap => ∀ s, tagsMap s ≠ some 0)
      (fun s => (Option.some_ne_none _).symm) ?_
    intro tagsMap unnamed i member s
    rw [List.mem_range'_1] at member
    simp only [TagsMap.insert]
    split_ifs
    · exact unnamed s
    · by_cases own : s = ((NvmKvPoolMgr.readBack store media).getPoolTag i).str
      · rw [own, Function.update_self]
        exact fun same => Nat.ne_of_gt member.1 (Option.some.inj same)
      · rw [Function.update_of_ne own]
        exact unnamed s
    · exact unnamed s

end Restore

/-- The store that a stopped creation leaves is created anew, or is opened with the default
pool in use, whose id no later call gives out. -/
def SurvivesCrash (store : NvmKvStore) (maxTotalSize : AtomicWriteMaxTotalSize)
    (first later : OpenArguments) (poolTags : Nat → NvmKvPoolTag) (media : StoreMedia) (cut : Nat) :
    Prop :=
  let crashed := media.after ((creationWrites store maxTotalSize first poolTags).take cut)
  match crashed.metadata with
  | none => True
  | some metadata => ∃ mgr, reopenPools store later metadata crashed = .ok mgr ∧
      bitmapTest mgr.inUse 0 = true ∧
      ∀ state, PoolState.ReachedFrom store ⟨mgr, crashed.pools metadata, fun _ => false⟩ state →
        ∀ (poolTag : Option NvmKvPoolTag) (written : Bool),
          (state.mgr.createPool store poolTag written state.media).1 ≠ .ok 0

/-- The bitmaps that the device has in place of those of the store name the default pool
and mark no pool that is not in use. -/
def BitmapsFound (store : NvmKvStore) (media : StoreMedia) : Prop :=
  bitmapTest media.inUse 0 = true ∧
    ∀ i, 0 < i → i < store.maxPools → bitmapTest media.deleted i = true →
      bitmapTest media.inUse i = true

section Crash

variable {store : NvmKvStore} {maxTotalSize : AtomicWriteMaxTotalSize}
  {first later : OpenArguments} {poolTags : Nat → NvmKvPoolTag} {media crashed : StoreMedia}

/-- A store whose metadata were written is opened by its version, with the pools that the
media have. -/
theorem reopenPools_new (same : later.version = first.version) (media : StoreMedia) :
    reopenPools store later first.newMetadata media =
      NvmKvPoolMgr.restore store (media.pools first.newMetadata) := by
  have verified : ¬(first.newMetadata.version ≠ later.version ∨
      first.newMetadata.kvStoreStamp ≠ mKvStamp) := by
    rintro (version | stamp)
    · exact version same.symm
    · exact stamp rfl
  simp only [reopenPools, openMetadata, if_neg verified]

/-- A store with metadata survives just when the bitmaps on the media are fit. -/
theorem survives_iff (same : later.version = first.version) {cut : Nat}
    (after : media.after ((creationWrites store maxTotalSize first poolTags).take cut) = crashed)
    (metadata : crashed.metadata = some first.newMetadata) :
    SurvivesCrash store maxTotalSize first later poolTags media cut ↔
      BitmapsFound store crashed := by
  simp only [SurvivesCrash, after, metadata, reopenPools_new same]
  constructor
  · rintro ⟨mgr, restored, inUse, -⟩
    refine ⟨?_, restore_ok_iff.mp ⟨mgr, restored⟩⟩
    rw [(restore_default restored).1] at inUse
    exact inUse
  · rintro ⟨default, consistent⟩
    obtain ⟨mgr, restored⟩ :=
      (@restore_ok_iff store (crashed.pools first.newMetadata)).mpr consistent
    obtain ⟨bit, unnamed⟩ := restore_default restored
    have kept : DefaultInUse mgr := ⟨bit.trans default, unnamed⟩
    refine ⟨mgr, restored, kept.inUse, ?_⟩
    intro state run poolTag written
    exact (kept.reached rfl run).1.createPool_other poolTag written state.media

end Crash

/-- When the process stops after some writes of a first opening, the store is created anew or keeps
its default pool just when no write was made, or all of them, or the device had fit bitmaps in place
of those of the store before. What the last write leaves is what a new store has written. -/
theorem creation_crash_iff (store : NvmKvStore) (maxTotalSize : AtomicWriteMaxTotalSize)
    (first later : OpenArguments) (poolTags : Nat → NvmKvPoolTag) (media : StoreMedia)
    (blank : media.metadata = none) (same : later.version = first.version) (cut : Nat)
    (within : cut ≤ (creationWrites store maxTotalSize first poolTags).length) :
    SurvivesCrash store maxTotalSize first later poolTags media cut ↔
      cut = 0 ∨ cut = (creationWrites store maxTotalSize first poolTags).length ∨
        BitmapsFound store media := by
  rcases Nat.eq_zero_or_pos cut with none | some
  · subst none
    simp only [SurvivesCrash, List.take_zero, StoreMedia.after, List.foldl_nil, blank, true_or]
  · rcases Nat.lt_or_eq_of_le within with part | all
    · obtain ⟨tags, after⟩ := after_some_writes media some part
      rw [survives_iff same after rfl]
      have middle : ¬cut = 0 ∧ ¬cut =
          (creationWrites store maxTotalSize first poolTags).length := by
        omega
      simp only [middle.1, middle.2, false_or]
      rfl
    · have whole : media.after ((creationWrites store maxTotalSize first poolTags).take cut) =
          media.after (creationWrites store maxTotalSize first poolTags) := by
        rw [all, List.take_length]
      rw [survives_iff same whole (by rw [after_all_writes])]
      simp only [all, true_or, or_true, iff_true]
      have run : PoolState.Reached store (· = true)
          (PoolState.created store poolTags (media.pools first.newMetadata)) := .created _ _
      obtain ⟨mgr, restored, inUse, -⟩ := pool_restart store run
      rw [after_all_writes]
      constructor
      · have read := (restore_default restored).1
        rw [inUse] at read
        exact read.symm.trans (Bookkeeping.created store poolTags).defaultInUse
      · exact restore_ok_iff.mp ⟨mgr, restored⟩

/-- A device on which nothing was written. -/
def blankMedia : StoreMedia where
  metadata := none
  inUse := fun _ => 0
  deleted := fun _ => 0
  poolTags := fun _ => .zero

/-- The first opening of a store with four pools. -/
def firstOpening : OpenArguments := ⟨3, 1, 4, 0⟩

/-- When the process stops after the metadata were written on a blank device, the default
pool is not in use in the store that is opened then. -/
theorem creation_crash_loses_default :
    ¬ ∀ (store : NvmKvStore) (maxTotalSize : AtomicWriteMaxTotalSize)
      (first later : OpenArguments) (poolTags : Nat → NvmKvPoolTag) (media : StoreMedia)
      (cut : Nat),
      2 ≤ first.maxPools.toNat → store.maxPools = first.maxPools.toNat → media.metadata = none →
      (∃ metadata, openMetadata first none = .ok metadata) → later.version = first.version →
      cut ≤ (creationWrites store maxTotalSize first poolTags).length →
      SurvivesCrash store maxTotalSize first later poolTags media cut := by
  intro survives
  obtain ⟨mgr, restored, inUse, -⟩ := survives NvmKvStore.terabyteStore ⟨1048576, by decide⟩
    firstOpening firstOpening (fun _ => .zero) blankMedia 1 (by decide) rfl rfl ⟨_, rfl⟩ rfl
    (by simp [creationWrites])
  rw [reopenPools_new rfl] at restored
  rw [(restore_default restored).1] at inUse
  exact absurd inUse (by decide)

/-- When every write was made, the default pool is kept. -/
theorem creation_crash_after_last :
    SurvivesCrash NvmKvStore.terabyteStore ⟨1048576, by decide⟩ firstOpening firstOpening
      (fun _ => .zero) blankMedia
      (creationWrites NvmKvStore.terabyteStore ⟨1048576, by decide⟩ firstOpening
        fun _ => .zero).length :=
  (creation_crash_iff NvmKvStore.terabyteStore ⟨1048576, by decide⟩ firstOpening firstOpening
    (fun _ => .zero) blankMedia rfl rfl _ le_rfl).mpr (Or.inr (Or.inl rfl))

end Nvmkv
