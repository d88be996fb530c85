import Nvmkv.PoolBookkeeping

/-!
# Opening a store again

A manager that reads its pools back from the media finds what the manager in
memory has, after any steps whose writes the device accepted: the same bits, the
same count and the same map of tags.

Memory and media do differ. Deleting a pool forgets its tag in memory and leaves
it on the media, and a tag of a pool that is gone stays in its sector. Reading
back skips both, because the tag of a pool counts only while the pool is live: in
use and not being deleted. For live pools the tags agree, and that is the relation
the steps keep.
-/

namespace Nvmkv

namespace NvmKvStore

variable {store : NvmKvStore}

/-- A word lies in the sector of each of its bits. -/
theorem word_sector (index : Nat) :
    (index / 32 * 4) >>> store.sectBits = bitIndexSector index store.sectBits := by
  obtain ⟨bits, lower, _, size⟩ := store.capabilities.sector_pow
  have wide : store.sectBits = bits := by
    rw [sectBits, sectorSize, size, Nat.log2_two_pow]
  obtain ⟨rest, split⟩ : ∃ rest, bits = rest + 2 := ⟨bits - 2, by omega⟩
  have high : 2 ^ (rest + 2 + 3) = 32 * 2 ^ rest := by
    rw [Nat.pow_add, Nat.pow_add]
    omega
  have low : 2 ^ (rest + 2) = 2 ^ rest * 4 := by rw [Nat.pow_add]
  rw [bitIndexSector, wide, split, Nat.shiftRight_eq_div_pow, Nat.shiftRight_eq_div_pow, high, low,
    Nat.mul_div_mul_right _ _ (by decide), Nat.div_div_eq_div_mul]

/-- Writing the sector of a pool brings a bitmap up to date that differs from the
media in the word of that pool only. -/
theorem writeBitmap_sector {memory changed media : KvBitmap} {index : Nat}
    (mirrored : ∀ word, word * 4 < store.bmLen → media word = memory word)
    (elsewhere : ∀ word, word ≠ index / 32 → changed word = memory word) {word : Nat}
    (inside : word * 4 < store.bmLen) :
    store.writeBitmap (some index) changed media word = changed word := by
  rw [writeBitmap]
  by_cases here : word = index / 32
  · rw [here, if_pos (word_sector index)]
  · split_ifs
    · rfl
    · rw [mirrored word inside, elsewhere word here]

/-- A write of a whole bitmap puts the words of the memory on the media. -/
theorem writeBitmap_whole {memory media : KvBitmap} {word : Nat}
    (inside : word * 4 < store.bmLen) :
    store.writeBitmap none memory media word = memory word := if_pos inside

/-- Writing the sector of a pool's tag brings the tags up to date that agreed
before and have not changed since. -/
theorem writePoolTags_sector {memory changed media : Nat → NvmKvPoolTag} {index pool : Nat}
    (mirrored : pool ≠ index → media pool = memory pool)
    (elsewhere : pool ≠ index → changed pool = memory pool) :
    store.writePoolTags (some index) changed media pool = changed pool := by
  rw [writePoolTags]
  by_cases here : pool = index
  · rw [here, if_pos rfl]
  · split_ifs
    · rfl
    · rw [mirrored here, elsewhere here]

end NvmKvStore

/-- A pool in use that is not being deleted. -/
def NvmKvPoolMgr.Live (mgr : NvmKvPoolMgr) (poolId : Nat) : Prop :=
  bitmapTest mgr.inUse poolId = true ∧ bitmapTest mgr.deleted poolId = false

/-- The tags: those of pools being deleted are forgotten, the map has the names of
the live pools, and for those the media have the tags too. -/
structure TagsKept (mgr : NvmKvPoolMgr) (written : Nat → NvmKvPoolTag) : Prop where
  forgotten : ∀ i, bitmapTest mgr.deleted i = true → (mgr.poolTags i).str = []
  named : ∀ s i, mgr.tagsMap s = some i ↔
    0 < i ∧ mgr.Live i ∧ (mgr.poolTags i).str = s ∧ s ≠ []
  onMedia : ∀ i, 0 < i → mgr.Live i → written i = mgr.poolTags i

namespace TagsKept

variable {mgr changed : NvmKvPoolMgr} {written : Nat → NvmKvPoolTag}

/-- Tags and map are about the live pools, so clearing pools that are not live
changes nothing. -/
theorem congr (kept : TagsKept mgr written) (tags : changed.poolTags = mgr.poolTags)
    (tagsMap : changed.tagsMap = mgr.tagsMap)
    (deleted : ∀ i, bitmapTest changed.deleted i = true → bitmapTest mgr.deleted i = true)
    (live : ∀ i, changed.Live i ↔ mgr.Live i) : TagsKept changed written where
  forgotten := by
    intro i marked
    rw [tags]
    exact kept.forgotten i (deleted i marked)
  named := by
    intro s i
    rw [tags, tagsMap, live]
    exact kept.named s i
  onMedia := by
    intro i positive lives
    rw [tags]
    exact kept.onMedia i positive ((live i).mp lives)

/-- Marking a pool forgets its tag and its name. A pool that was marked before has no name to
forget. No other name was its name. -/
theorem markDeleted (kept : TagsKept mgr written) {poolId : Nat} (positive : 0 < poolId) :
    TagsKept (mgr.markDeleted poolId) written := by
  rw [NvmKvPoolMgr.markDeleted]
  by_cases used : bitmapTest mgr.inUse poolId = true
  · rw [if_pos used]
    have live : ∀ i, NvmKvPoolMgr.Live
        { mgr with
          poolTags := Function.update mgr.poolTags poolId .zero
          tagsMap := mgr.tagsMap.erase (mgr.poolTags poolId).str
          deleted := bitmapSet mgr.deleted poolId } i ↔ i ≠ poolId ∧ mgr.Live i := by
      intro i
      by_cases same : i = poolId
      · simp [NvmKvPoolMgr.Live, bitmapTest_set, same]
      · simp [NvmKvPoolMgr.Live, bitmapTest_set, same]
    refine ⟨?_, ?_, ?_⟩
    · intro i marked
      by_cases same : i = poolId
      · simp [same]
      · simp only [bitmapTest_set, same, decide_false, Bool.false_or] at marked
        simpa [same] using kept.forgotten i marked
    · intro s i
      rw [live]
      by_cases other : i = poolId
      · simp only [other, ne_eq, not_true_eq_false, false_and, and_false, iff_false]
        rw [TagsMap.erase]
        by_cases own : s = (mgr.poolTags poolId).str
        · simp [own]
        · rw [Function.update_of_ne own, kept.named]
          rintro ⟨_, _, name, _⟩
          exact own name.symm
      · simp only [TagsMap.erase, Function.update_of_ne other]
        by_cases own : s = (mgr.poolTags poolId).str
        · rw [own, Function.update_self]
          refine iff_of_false (Option.some_ne_none _).symm ?_
          rintro ⟨above, ⟨_, lives⟩, name, nonempty⟩
          have unmarked : bitmapTest mgr.deleted poolId = false := by
            cases marked : bitmapTest mgr.deleted poolId with
            | false => rfl
            | true => exact absurd (kept.forgotten poolId marked) nonempty
          have entry := (kept.named _ poolId).mpr ⟨positive, ⟨used, unmarked⟩, rfl, nonempty⟩
          have twice := (kept.named _ i).mpr ⟨above, lives, name, nonempty⟩
          rw [entry] at twice
          exact other (Option.some.inj twice).symm
        · rw [Function.update_of_ne own, kept.named]
          simp [other]
    · intro i above lives
      obtain ⟨other, lives⟩ := (live i).mp lives
      dsimp only
      rw [Function.update_of_ne other]
      exact kept.onMedia i above lives
  · rw [if_neg used]
    exact kept

/-- A tag that no live pool has names the pool it is given to. Names other than the new one are as
before. -/
theorem allocated (kept : TagsKept mgr written) {poolTag : Option NvmKvPoolTag} {poolId : Nat}
    (positive : 0 < poolId) (clear : bitmapTest mgr.inUse poolId = false)
    (unmarked : bitmapTest mgr.deleted poolId = false) (unknown : mgr.knownPool poolTag = none)
    {rewritten : Nat → NvmKvPoolTag}
    (onMedia : ∀ i, 0 < i → (i ≠ poolId → mgr.Live i) →
      rewritten i = (mgr.allocated poolTag poolId).poolTags i) :
    TagsKept (mgr.allocated poolTag poolId) rewritten := by
  have live : ∀ i, (mgr.allocated poolTag poolId).Live i ↔ i = poolId ∨ mgr.Live i := by
    intro i
    by_cases same : i = poolId
    · simp [NvmKvPoolMgr.Live, NvmKvPoolMgr.allocated, bitmapTest_set, same, unmarked]
    · simp [NvmKvPoolMgr.Live, NvmKvPoolMgr.allocated, bitmapTest_set, same]
  have notLive : ¬mgr.Live poolId := fun lives => by simp [lives.1] at clear
  have tags : ∀ i, i ≠ poolId → (mgr.allocated poolTag poolId).poolTags i = mgr.poolTags i :=
    fun i other => Function.update_of_ne other _ _
  have tag : (mgr.allocated poolTag poolId).poolTags poolId = poolTag.getD .zero :=
    Function.update_self _ _ _
  refine ⟨?_, ?_, ?_⟩
  · intro i marked
    have other : i ≠ poolId := by
      intro same
      have before : bitmapTest mgr.deleted i = true := marked
      rw [same, unmarked] at before
      exact Bool.noConfusion before
    rw [tags i other]
    exact kept.forgotten i marked
  · have others : ∀ s i, ((poolTag.getD .zero).str = s → s = []) →
        (mgr.tagsMap s = some i ↔ 0 < i ∧ (mgr.allocated poolTag poolId).Live i ∧
          ((mgr.allocated poolTag poolId).poolTags i).str = s ∧ s ≠ []) := by
      intro s i foreign
      rw [kept.named, live]
      by_cases same : i = poolId
      · subst same
        rw [tag]
        refine iff_of_false (fun held => notLive held.2.1) ?_
        rintro ⟨_, _, name, nonempty⟩
        exact nonempty (foreign name)
      · rw [tags i same]
        simp [same]
    intro s i
    cases poolTag with
    | none => exact others s i fun name => name.symm
    | some given =>
        by_cases empty : given.str = []
        · have unchanged : (mgr.allocated (some given) poolId).tagsMap = mgr.tagsMap := by
            simp [NvmKvPoolMgr.allocated, empty]
          rw [unchanged]
          exact others s i fun name => name.symm.trans empty
        · have absent : mgr.tagsMap given.str = none := by
            simpa [NvmKvPoolMgr.knownPool, empty] using unknown
          have inserted : (mgr.allocated (some given) poolId).tagsMap =
              Function.update mgr.tagsMap given.str (some poolId) := by
            simp [NvmKvPoolMgr.allocated, empty, TagsMap.insert, absent]
          rw [inserted]
          by_cases own : s = given.str
          · rw [own, Function.update_self]
            by_cases same : i = poolId
            · subst same
              rw [tag]
              simp [live, positive, empty]
            · have entry := kept.named given.str i
              rw [absent] at entry
              rw [tags i same, live]
              simp only [same, false_or]
              rw [← entry]
              simp [Ne.symm same]
          · rw [Function.update_of_ne own]
            exact others s i fun name => absurd name.symm own
  · intro i above lives
    refine onMedia i above fun other => ?_
    rcases (live i).mp lives with same | lives
    · exact absurd same other
    · exact lives

end TagsKept

/-- The media mirror the manager: bitmaps and count are written, and the tags of
live pools. Only marked pools wait to be cleared. -/
structure Mirrored (store : NvmKvStore) (state : PoolState) : Prop where
  inUse : ∀ word, word * 4 < store.bmLen → state.media.inUse word = state.mgr.inUse word
  deleted : ∀ word, word * 4 < store.bmLen → state.media.deleted word = state.mgr.deleted word
  total : state.media.totalNoPools = state.mgr.totalNoPools
  tags : TagsKept state.mgr state.media.poolTags
  pendingMarked : ∀ i, state.pending i = true → bitmapTest state.mgr.deleted i = true

namespace Mirrored

variable {store : NvmKvStore} {state : PoolState}

/-- A manager just created mirrors its media: the default pool, which has no name, is its only live
one. -/
theorem created (store : NvmKvStore) (poolTags : Nat → NvmKvPoolTag) (media : PoolMedia) :
    Mirrored store (PoolState.created store poolTags media) where
  inUse := by
    intro word inside
    simp [PoolState.created, NvmKvStore.persistStoreInfo, NvmKvStore.writeBitmap_whole inside]
  deleted := by
    intro word inside
    simp [PoolState.created, NvmKvStore.persistStoreInfo, NvmKvStore.writeBitmap_whole inside]
  total := by simp [PoolState.created, NvmKvStore.persistStoreInfo]
  tags := by
    have live : ∀ i, 0 < i → ¬(PoolState.created store poolTags media).mgr.Live i := by
      rintro i positive ⟨used, _⟩
      have default : i = 0 := by
        simpa [PoolState.created, NvmKvPoolMgr.created, bitmapTest_set, defaultPoolId] using used
      omega
    refine ⟨?_, ?_, fun i positive lives => absurd lives (live i positive)⟩
    · intro i marked
      simp [PoolState.created, NvmKvPoolMgr.created] at marked
    · intro s i
      refine iff_of_false (Option.some_ne_none _).symm ?_
      exact fun held => live i held.1 held.2.1
  pendingMarked := by simp [PoolState.created]

/-- A creation that is written keeps memory and media alike. -/
theorem createPool (mirrored : Mirrored store state)
    (books : Bookkeeping store state.mgr state.pending) (poolTag : Option NvmKvPoolTag) :
    Mirrored store
      { state with
        mgr := (state.mgr.createPool store poolTag true state.media).2.1
        media := (state.mgr.createPool store poolTag true state.media).2.2 } := by
  obtain ⟨_, _, result⟩ | ⟨_, result⟩ | ⟨poolId, unknown, inside, clear, result⟩ :=
    state.mgr.createPool_cases store poolTag true state.media
  · rwa [result]
  · rwa [result]
  · have positive : 0 < poolId := by
      apply Nat.pos_of_ne_zero
      intro zero
      rw [zero, books.defaultInUse] at clear
      exact Bool.noConfusion clear
    have unmarked : bitmapTest state.mgr.deleted poolId = false := by
      cases marked : bitmapTest state.mgr.deleted poolId with
      | false => rfl
      | true =>
          rw [books.deletedInUse poolId marked] at clear
          exact Bool.noConfusion clear
    rw [result]
    refine ⟨?_, mirrored.deleted, rfl, ?_, mirrored.pendingMarked⟩
    · intro word inBytes
      exact NvmKvStore.writeBitmap_sector mirrored.inUse
        (fun other elsewhere => Function.update_of_ne elsewhere _ _) inBytes
    · refine mirrored.tags.allocated positive clear unmarked unknown ?_
      intro i above lives
      exact NvmKvStore.writePoolTags_sector
        (fun other => mirrored.tags.onMedia i above (lives other))
        fun other => Function.update_of_ne other _ _

/-- Marking leaves the pools in use, the count and the marks that are there. -/
theorem markDeleted_foldl (mgr : NvmKvPoolMgr) (ids : List Nat) :
    (ids.foldl NvmKvPoolMgr.markDeleted mgr).inUse = mgr.inUse ∧
      (ids.foldl NvmKvPoolMgr.markDeleted mgr).totalNoPools = mgr.totalNoPools ∧
      ∀ i, bitmapTest mgr.deleted i = true →
        bitmapTest (ids.foldl NvmKvPoolMgr.markDeleted mgr).deleted i = true := by
  refine foldl_keeps (fun marked : NvmKvPoolMgr => marked.inUse = mgr.inUse ∧
    marked.totalNoPools = mgr.totalNoPools ∧
    ∀ i, bitmapTest mgr.deleted i = true → bitmapTest marked.deleted i = true)
    ⟨rfl, rfl, fun _ marked => marked⟩ ?_
  rintro marked ⟨inUse, total, marks⟩ id _
  rw [NvmKvPoolMgr.markDeleted]
  split_ifs
  · refine ⟨inUse, total, ?_⟩
    intro i before
    simp [bitmapTest_set, marks i before]
  · exact ⟨inUse, total, marks⟩

/-- So does a call that marks pools. -/
theorem kvPoolDelete (mirrored : Mirrored store state) (poolId : UInt32) :
    Mirrored store
      { state with
        mgr := (state.mgr.kvPoolDelete store poolId true state.media).2.1
        media := (state.mgr.kvPoolDelete store poolId true state.media).2.2 } := by
  obtain same | ⟨other, result⟩ := state.mgr.kvPoolDelete_cases store poolId true state.media
  · rwa [same.1, same.2]
  rw [result]
  obtain ⟨inUse, total, marks⟩ :=
    markDeleted_foldl state.mgr (NvmKvPoolMgr.idsToDelete store poolId)
  refine ⟨?_, ?_, ?_, ?_, ?_⟩
  · intro word inside
    exact (mirrored.inUse word inside).trans (congrFun inUse.symm word)
  · intro word inside
    by_cases all : poolId = poolIdAll
    · rw [NvmKvPoolMgr.deletePoolLocked, if_pos all]
      exact NvmKvStore.writeBitmap_whole inside
    · rw [NvmKvPoolMgr.deletePoolLocked, if_neg all]
      refine NvmKvStore.writeBitmap_sector mirrored.deleted ?_ inside
      intro other elsewhere
      rw [NvmKvPoolMgr.idsToDelete, if_neg all, List.foldl_cons, List.foldl_nil,
        NvmKvPoolMgr.markDeleted]
      split_ifs
      · exact Function.update_of_ne elsewhere _ _
      · rfl
  · exact mirrored.total.trans total.symm
  · exact foldl_keeps (TagsKept · state.media.poolTags) mirrored.tags fun _ kept _ member =>
      kept.markDeleted (idsToDelete_positive store other member)
  · exact fun i due => marks i (mirrored.pendingMarked i due)

/-- Copying the deletion bits changes neither. -/
theorem snapshot (mirrored : Mirrored store state) :
    Mirrored store
      { state with pending := bitmapTest (state.mgr.getPoolDeletionBitmap store).1 } where
  inUse := mirrored.inUse
  deleted := mirrored.deleted
  total := mirrored.total
  tags := mirrored.tags
  pendingMarked := fun _ due => NvmKvPoolMgr.copied_marked due

/-- What the walk over the ids to clear does to the bits, by induction along the
ids. -/
theorem clearStep_foldl_bits (clearPoolBitmap : KvBitmap) (zeroed : Bool) (ids : List Nat)
    (mgr : NvmKvPoolMgr) :
    (ids.foldl (NvmKvPoolMgr.clearStep clearPoolBitmap zeroed) mgr).poolTags = mgr.poolTags ∧
      (ids.foldl (NvmKvPoolMgr.clearStep clearPoolBitmap zeroed) mgr).tagsMap = mgr.tagsMap ∧
      (∀ i, bitmapTest (ids.foldl (NvmKvPoolMgr.clearStep clearPoolBitmap zeroed) mgr).inUse i =
        (bitmapTest mgr.inUse i && !(decide (i ∈ ids) && bitmapTest clearPoolBitmap i))) ∧
      ∀ i, bitmapTest (ids.foldl (NvmKvPoolMgr.clearStep clearPoolBitmap zeroed) mgr).deleted i =
        (bitmapTest mgr.deleted i &&
          (zeroed || !(decide (i ∈ ids) && bitmapTest clearPoolBitmap i))) := by
  induction ids generalizing mgr with
  | nil => simp
  | cons id ids inductionHypothesis =>
      rw [List.foldl_cons]
      obtain ⟨tags, tagsMap, inUse, deleted⟩ :=
        inductionHypothesis (NvmKvPoolMgr.clearStep clearPoolBitmap zeroed mgr id)
      rw [tags, tagsMap]
      simp only [inUse, deleted]
      rw [NvmKvPoolMgr.clearStep]
      by_cases chosen : bitmapTest clearPoolBitmap id = true
      · rw [if_pos chosen]
        refine ⟨rfl, rfl, ?_, ?_⟩
        · intro i
          by_cases same : i = id
          · simp [same, chosen, bitmapTest_clear]
          · simp [same, bitmapTest_clear]
        · intro i
          cases zeroed with
          | true => simp
          | false =>
              by_cases same : i = id
              · simp [same, chosen, bitmapTest_clear]
              · simp [same, bitmapTest_clear]
      · rw [if_neg chosen]
        refine ⟨rfl, rfl, ?_, ?_⟩
        · intro i
          by_cases same : i = id
          · simp [same, chosen]
          · simp [same]
        · intro i
          by_cases same : i = id
          · simp [same, chosen]
          · simp [same]

/-- Bitmaps with the same bytes have the same bits for the pools. -/
theorem same_bits {pbm other : KvBitmap} (same : NvmKvPoolMgr.sameBitmap store pbm other = true)
    {i : Nat} (bounded : i < store.maxPools) : bitmapTest pbm i = bitmapTest other i := by
  have limit : store.maxPools ≤ 1048576 := store.poolsBounded
  have enough := (store.round_upto_sector_bounds (round32 store.maxPools / 8)
    (by unfold round32; omega)).1
  have inside : i / 32 < store.bmLen / 4 := by
    rw [NvmKvStore.bmLen]
    unfold round32 at enough ⊢
    omega
  rw [NvmKvPoolMgr.sameBitmap, List.all_eq_true] at same
  have words := of_decide_eq_true (same (i / 32) (List.mem_range.mpr inside))
  rw [bitmapTest_eq, bitmapTest_eq, words]

/-- Clearing marked pools in both bitmaps changes nothing about the live ones, and
the pools that stay keep their marks. -/
theorem cleared (mirrored : Mirrored store state) {changed : NvmKvPoolMgr} {gone : Nat → Bool}
    (due : ∀ i, gone i = true → state.pending i = true)
    (tags : changed.poolTags = state.mgr.poolTags) (tagsMap : changed.tagsMap = state.mgr.tagsMap)
    (inUse : ∀ i, bitmapTest changed.inUse i = (bitmapTest state.mgr.inUse i && !gone i))
    (deleted : ∀ i, bitmapTest changed.deleted i = (bitmapTest state.mgr.deleted i && !gone i)) :
    TagsKept changed state.media.poolTags ∧
      ∀ i, (state.pending i && !gone i) = true → bitmapTest changed.deleted i = true := by
  refine ⟨mirrored.tags.congr tags tagsMap ?_ ?_, ?_⟩
  · intro i marked
    rw [deleted, Bool.and_eq_true] at marked
    exact marked.1
  · intro i
    rw [NvmKvPoolMgr.Live, NvmKvPoolMgr.Live, inUse, deleted]
    cases leaves : gone i with
    | false => simp
    | true => simp [mirrored.pendingMarked i (due i leaves)]
  · intro i remains
    rw [Bool.and_eq_true] at remains
    rw [deleted, mirrored.pendingMarked i remains.1, remains.2, Bool.and_self]

/-- Clearing the pools of a copy keeps both alike. -/
theorem clearPoolBitmaps (mirrored : Mirrored store state)
    (books : Bookkeeping store state.mgr state.pending) {clearPoolBitmap : KvBitmap}
    (due : ∀ i, bitmapTest clearPoolBitmap i = true → state.pending i = true) :
    Mirrored store
      { mgr := (state.mgr.clearPoolBitmaps store clearPoolBitmap true state.media).2.1
        media := (state.mgr.clearPoolBitmaps store clearPoolBitmap true state.media).2.2
        pending := fun i => state.pending i && !bitmapTest clearPoolBitmap i } := by
  have listed : ∀ i, (decide (i ∈ List.range' 1 (store.maxPools - 1)) &&
      bitmapTest clearPoolBitmap i) = bitmapTest clearPoolBitmap i := by
    intro i
    cases chosen : bitmapTest clearPoolBitmap i with
    | false => simp
    | true =>
        obtain ⟨used, positive⟩ := books.pendingInUse i (due i chosen)
        have inside := books.inUseBounded i used
        have member : i ∈ List.range' 1 (store.maxPools - 1) := by
          rw [List.mem_range'_1]
          omega
        simp [member]
  have walked : TagsKept (state.mgr.clearPoolBitmaps store clearPoolBitmap true state.media).2.1
        state.media.poolTags ∧
      ∀ i, (state.pending i && !bitmapTest clearPoolBitmap i) = true →
        bitmapTest (state.mgr.clearPoolBitmaps store clearPoolBitmap true
          state.media).2.1.deleted i = true := by
    cases same : NvmKvPoolMgr.sameBitmap store state.mgr.deleted clearPoolBitmap with
    | true =>
        obtain ⟨tags, tagsMap, inUse, deleted⟩ := clearStep_foldl_bits clearPoolBitmap true
          (List.range' 1 (store.maxPools - 1))
          { state.mgr with
            deleted := fun word => if word * 4 < store.bmLen then 0 else state.mgr.deleted word }
        have outcome : (state.mgr.clearPoolBitmaps store clearPoolBitmap true state.media).2.1 =
            (List.range' 1 (store.maxPools - 1)).foldl
              (NvmKvPoolMgr.clearStep clearPoolBitmap true)
              { state.mgr with
                deleted := fun word =>
                  if word * 4 < store.bmLen then 0 else state.mgr.deleted word } := by
          rw [NvmKvPoolMgr.clearPoolBitmaps, same]
          rfl
        rw [outcome]
        refine mirrored.cleared due tags tagsMap (fun i => by rw [inUse, listed]) ?_
        intro i
        rw [deleted, books.zeroed, Bool.false_and]
        cases marked : bitmapTest state.mgr.deleted i with
        | false => rfl
        | true =>
            have bounded := books.inUseBounded i (books.deletedInUse i marked)
            rw [← same_bits same bounded, marked]
            rfl
    | false =>
        obtain ⟨tags, tagsMap, inUse, deleted⟩ := clearStep_foldl_bits clearPoolBitmap false
          (List.range' 1 (store.maxPools - 1)) state.mgr
        have outcome : (state.mgr.clearPoolBitmaps store clearPoolBitmap true state.media).2.1 =
            (List.range' 1 (store.maxPools - 1)).foldl
              (NvmKvPoolMgr.clearStep clearPoolBitmap false) state.mgr := by
          rw [NvmKvPoolMgr.clearPoolBitmaps, same]
          rfl
        rw [outcome]
        refine mirrored.cleared due tags tagsMap (fun i => by rw [inUse, listed]) ?_
        intro i
        rw [deleted, listed, Bool.false_or]
  exact
    { inUse := fun _ inside => NvmKvStore.writeBitmap_whole inside
      deleted := fun _ inside => NvmKvStore.writeBitmap_whole inside
      total := rfl
      tags := walked.1
      pendingMarked := walked.2 }

/-- So does the clearing of one pool. -/
theorem clearPoolBitmap (mirrored : Mirrored store state) {poolId : Nat}
    (due : state.pending poolId = true) :
    Mirrored store
      { mgr := (state.mgr.clearPoolBitmap store poolId true state.media).2.1
        media := (state.mgr.clearPoolBitmap store poolId true state.media).2.2
        pending := Function.update state.pending poolId false } := by
  have walked := @cleared store state mirrored
    (state.mgr.clearPoolBitmap store poolId true state.media).2.1 (fun i => decide (i = poolId))
    (fun i same => by rw [of_decide_eq_true same, due]) rfl rfl
    (fun i => by
      simp [NvmKvPoolMgr.clearPoolBitmap, NvmKvStore.persistStoreInfo, bitmapTest_clear,
        Bool.and_comm])
    (fun i => by
      simp [NvmKvPoolMgr.clearPoolBitmap, NvmKvStore.persistStoreInfo, bitmapTest_clear,
        Bool.and_comm])
  exact
    { inUse := fun _ inside => NvmKvStore.writeBitmap_sector mirrored.inUse
        (fun _ elsewhere => Function.update_of_ne elsewhere _ _) inside
      deleted := fun _ inside => NvmKvStore.writeBitmap_sector mirrored.deleted
        (fun _ elsewhere => Function.update_of_ne elsewhere _ _) inside
      total := rfl
      tags := walked.1
      pendingMarked := by
        intro i remains
        refine walked.2 i ?_
        by_cases same : i = poolId
        · simp [same] at remains
        · simpa [same] using remains }

/-- A step whose write is accepted keeps the media up to date. -/
theorem step {next : PoolState} (mirrored : Mirrored store state)
    (books : Bookkeeping store state.mgr state.pending)
    (taken : PoolState.Step store true state next) : Mirrored store next := by
  cases taken with
  | create poolTag free => exact mirrored.createPool books poolTag
  | delete poolId free => exact mirrored.kvPoolDelete poolId
  | snapshot free => exact mirrored.snapshot
  | clearBitmap clearPoolBitmap free due => exact mirrored.clearPoolBitmaps books due
  | clearId poolId free due => exact mirrored.clearPoolBitmap due

/-- So they are alike in every state that is reached. Induction follows the run. -/
theorem reached (run : PoolState.Reached store (· = true) state) : Mirrored store state := by
  induction run with
  | created poolTags media => exact created store poolTags media
  | step before outcome taken inductionHypothesis =>
      subst outcome
      exact inductionHypothesis.step (Bookkeeping.reached before) taken

end Mirrored

/-- The map built by a walk over ids that have names of their own: a name leads to
the id that has it, unless the map had it before. By induction along the ids. -/
theorem insert_foldl (name : Nat → List UInt8) (ids : List Nat)
    (distinct : ∀ i ∈ ids, ∀ j ∈ ids, name i = name j → name i ≠ [] → i = j) (start : TagsMap)
    (s : List UInt8) (i : Nat) :
    ids.foldl (fun tagsMap i => if name i = [] then tagsMap else tagsMap.insert (name i) i)
        start s = some i ↔
      start s = some i ∨ start s = none ∧ i ∈ ids ∧ name i = s ∧ s ≠ [] := by
  induction ids generalizing start with
  | nil => simp
  | cons id ids inductionHypothesis =>
      rw [List.foldl_cons, inductionHypothesis
        (fun i member j other => distinct i (List.mem_cons_of_mem _ member) j
          (List.mem_cons_of_mem _ other))]
      have skipped : (name id = s → s = []) →
          (i ∈ ids ∧ name i = s ∧ s ≠ [] ↔ i ∈ id :: ids ∧ name i = s ∧ s ≠ []) := by
        intro foreign
        rw [List.mem_cons]
        constructor
        · rintro ⟨member, rest⟩
          exact ⟨Or.inr member, rest⟩
        · rintro ⟨same | member, named, nonempty⟩
          · rw [same] at named
            exact absurd (foreign named) nonempty
          · exact ⟨member, named, nonempty⟩
      by_cases empty : name id = []
      · rw [if_pos empty]
        exact or_congr_right (and_congr_right fun _ => skipped fun named => named ▸ empty)
      · rw [if_neg empty, TagsMap.insert]
        by_cases absent : start (name id) = none
        · rw [if_pos absent]
          by_cases here : s = name id
          · rw [here, Function.update_self, absent]
            simp only [Option.some.injEq, reduceCtorEq, false_and, or_false, true_and, false_or,
              List.mem_cons, ne_eq, empty, not_false_eq_true, and_true]
            constructor
            · intro same
              exact ⟨Or.inl same.symm, by rw [same]⟩
            · rintro ⟨same | member, named⟩
              · exact same.symm
              · exact distinct id List.mem_cons_self i (List.mem_cons_of_mem _ member) named.symm
                  empty
          · rw [Function.update_of_ne here]
            exact or_congr_right (and_congr_right fun _ => skipped fun named =>
              absurd named.symm here)
        · rw [if_neg absent]
          exact or_congr_right (and_congr_right fun missing => skipped fun named =>
            absurd (named ▸ missing) absent)

/-- Reading a bitmap back gives the bits it had when it was written. -/
theorem read_bits {store : NvmKvStore} {memory media : KvBitmap}
    (mirrored : ∀ word, word * 4 < store.bmLen → media word = memory word)
    (bounded : ∀ i, bitmapTest memory i = true → i < store.maxPools) (i : Nat) :
    bitmapTest (fun word => if word * 4 < store.bmLen then media word else 0) i =
      bitmapTest memory i := by
  rw [bitmapTest_eq, bitmapTest_eq]
  by_cases inside : i / 32 * 4 < store.bmLen
  · rw [if_pos inside, mirrored _ inside]
  · rw [if_neg inside]
    cases set : (memory (i / 32)).getLsbD (i % 32) with
    | false => exact BitVec.getLsbD_zero
    | true => exact absurd (store.word_inside (bounded i (bitmapTest_eq memory i ▸ set))) inside

/-- The status of a pool below the limit. -/
theorem poolStatus_live {inUse deleted : Nat → Bool} {i : Nat} (positive : 0 < i)
    (bounded : i < nvmKvMaxPools) :
    poolStatus inUse deleted (UInt32.ofNat i) = .poolInUse ↔
      inUse i = true ∧ deleted i = false := by
  have limit : nvmKvMaxPools = 1048576 := rfl
  have small : i < UInt32.size := (limit ▸ bounded).trans (by decide)
  have id : (UInt32.ofNat i).toNat = i := UInt32.toNat_ofNat_of_lt' small
  rw [poolStatus, id]
  have valid : ¬(2 ^ 31 ≤ i ∨ nvmKvMaxPools ≤ i) := by omega
  have other : i ≠ 0 := Nat.ne_of_gt positive
  simp only [if_neg valid]
  cases inUse i <;> cases deleted i <;> simp [other]

/-- The tag read back for a pool is the tag of a live pool, and else there is none.
So a name is read back for the pool that the map in memory has for it. -/
theorem Mirrored.getPoolTag_readBack {store : NvmKvStore} {state : PoolState}
    (mirrored : Mirrored store state)
    (inUse : ∀ i, bitmapTest (NvmKvPoolMgr.readBack store state.media).inUse i =
      bitmapTest state.mgr.inUse i)
    (deleted : ∀ i, bitmapTest (NvmKvPoolMgr.readBack store state.media).deleted i =
      bitmapTest state.mgr.deleted i)
    {i : Nat} (positive : 0 < i) (bounded : i < nvmKvMaxPools) {s : List UInt8}
    (nonempty : s ≠ []) :
    ((NvmKvPoolMgr.readBack store state.media).getPoolTag i).str = s ↔
      state.mgr.tagsMap s = some i := by
  have status := @poolStatus_live (bitmapTest (NvmKvPoolMgr.readBack store state.media).inUse)
    (bitmapTest (NvmKvPoolMgr.readBack store state.media).deleted) i positive bounded
  rw [inUse, deleted] at status
  rw [mirrored.tags.named, NvmKvPoolMgr.getPoolTag, NvmKvPoolMgr.checkPoolStatus]
  by_cases lives : state.mgr.Live i
  · rw [if_pos (status.mpr lives)]
    have tag : (NvmKvPoolMgr.readBack store state.media).poolTags i = state.mgr.poolTags i :=
      mirrored.tags.onMedia i positive lives
    rw [tag]
    simp [positive, lives, nonempty]
  · rw [if_neg fun live => lives (status.mp live), NvmKvPoolTag.str_zero]
    exact iff_of_false (Ne.symm nonempty) fun held => lives held.2.1

/-- Opening a store again after any run whose writes were accepted gives the bits,
the count and the tags that the manager in memory has. -/
theorem pool_restart (store : NvmKvStore) {state : PoolState}
    (run : PoolState.Reached store (· = true) state) :
    ∃ restored, NvmKvPoolMgr.restore store state.media = .ok restored ∧
      (∀ i, bitmapTest restored.inUse i = bitmapTest state.mgr.inUse i) ∧
      (∀ i, bitmapTest restored.deleted i = bitmapTest state.mgr.deleted i) ∧
      restored.totalNoPools = state.mgr.totalNoPools ∧
      restored.tagsMap = state.mgr.tagsMap := by
  have books := Bookkeeping.reached run
  have mirrored := Mirrored.reached run
  have limit : store.maxPools ≤ nvmKvMaxPools := store.poolsBounded
  have inUse : ∀ i, bitmapTest (NvmKvPoolMgr.readBack store state.media).inUse i =
      bitmapTest state.mgr.inUse i := read_bits mirrored.inUse books.inUseBounded
  have deleted : ∀ i, bitmapTest (NvmKvPoolMgr.readBack store state.media).deleted i =
      bitmapTest state.mgr.deleted i := read_bits mirrored.deleted fun i marked =>
    books.inUseBounded i (books.deletedInUse i marked)
  have consistent : ((List.range' 1 (store.maxPools - 1)).any fun i =>
      bitmapTest (NvmKvPoolMgr.readBack store state.media).deleted i &&
        !bitmapTest (NvmKvPoolMgr.readBack store state.media).inUse i) = false := by
    rw [List.any_eq_false]
    intro i _ marked
    rw [inUse, deleted, Bool.and_eq_true, Bool.not_eq_true'] at marked
    rw [books.deletedInUse i marked.1] at marked
    exact Bool.noConfusion marked.2
  have read : ∀ i ∈ List.range' 1 (store.maxPools - 1), ∀ s, s ≠ [] →
      (((NvmKvPoolMgr.readBack store state.media).getPoolTag i).str = s ↔
        state.mgr.tagsMap s = some i) := by
    intro i member s nonempty
    rw [List.mem_range'_1] at member
    exact mirrored.getPoolTag_readBack inUse deleted member.1 (by omega) nonempty
  rw [NvmKvPoolMgr.restore]
  dsimp only
  rw [consistent, if_neg Bool.false_ne_true]
  refine ⟨_, rfl, inUse, deleted, mirrored.total, ?_⟩
  funext s
  apply Option.ext
  intro i
  dsimp only
  rw [insert_foldl fun i => ((NvmKvPoolMgr.readBack store state.media).getPoolTag i).str]
  · have blank : (NvmKvPoolMgr.readBack store state.media).tagsMap s = none := rfl
    rw [blank]
    constructor
    · rintro (impossible | ⟨_, member, name, nonempty⟩)
      · cases impossible
      · exact (read i member s nonempty).mp name
    · intro entry
      obtain ⟨positive, ⟨used, unmarked⟩, _, nonempty⟩ := (mirrored.tags.named s i).mp entry
      have inside := books.inUseBounded i used
      have member : i ∈ List.range' 1 (store.maxPools - 1) := by
        rw [List.mem_range'_1]
        omega
      exact Or.inr ⟨rfl, member, (read i member s nonempty).mpr entry, nonempty⟩
  · intro i member j other same nonempty
    have first := (read i member _ nonempty).mp rfl
    have second := (read j other _ nonempty).mp same.symm
    rw [first] at second
    exact Option.some.inj second

/-- The tag `a`. -/
def shortTag : NvmKvPoolTag := ⟨#v[97, 0, 0, 0, 0, 0, 0, 0, 0, 0, 0, 0, 0, 0, 0, 0]⟩

/-- After a pool with a tag was created. -/
theorem pool_restart_named_pool :
    ∃ restored, NvmKvPoolMgr.restore NvmKvStore.terabyteStore
        (openedPools.mgr.createPool NvmKvStore.terabyteStore (some shortTag) true
          openedPools.media).2.2 = .ok restored ∧
      restored.tagsMap = (openedPools.mgr.createPool NvmKvStore.terabyteStore (some shortTag) true
        openedPools.media).2.1.tagsMap := by
  have run : PoolState.Reached NvmKvStore.terabyteStore (· = true) openedPools := .created _ _
  have grown := run.step rfl
    (@PoolState.Step.create NvmKvStore.terabyteStore true (some shortTag) openedPools rfl)
  obtain ⟨restored, opened, _, _, _, tagsMap⟩ := pool_restart NvmKvStore.terabyteStore grown
  exact ⟨restored, opened, tagsMap⟩

end Nvmkv
