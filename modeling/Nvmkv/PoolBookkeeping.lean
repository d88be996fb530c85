import Nvmkv.PoolManager
import Nvmkv.ProbeAddresses

/-!
# The books of the pool manager

The bitmaps and the count of pools agree between the steps of the manager,
whatever becomes of its writes: the default pool stays, only pools in use are
marked for deletion, and the count is the number of pools in use. The ids that
the deletion thread has copied and not yet cleared stay in use, so an id that is
given out is neither in use nor being deleted.

Each operation is first described by what it does to the manager; the invariant
then follows from the bits that are set and cleared.
-/

namespace Nvmkv

/-- A number of pools that is not zero is counted down in 32 bits. -/
theorem totalNoPools_pred (total : UInt32) (positive : 0 < total.toNat) :
    (total - 1).toNat + 1 = total.toNat := by
  have one : (1 : UInt32) ≤ total := by
    rw [UInt32.le_iff_toNat_le]
    exact positive
  rw [UInt32.toNat_sub_of_le _ _ one]
  exact Nat.sub_add_cancel positive

/-- A number within the limit is counted up without wrapping. -/
theorem totalNoPools_succ (total : UInt32) (bounded : total.toNat ≤ nvmKvMaxPools) :
    (total + 1).toNat = total.toNat + 1 := by
  have limit : nvmKvMaxPools = 1048576 := rfl
  have one : (1 : UInt32).toNat = 1 := rfl
  rw [UInt32.toNat_add, one, Nat.mod_eq_of_lt (by omega)]

/-- Counting up is undone by counting down, at the ends of the numbers as well. -/
theorem totalNoPools_add_sub (total : UInt32) : total + 1 - 1 = total := by
  rw [UInt32.sub_eq_add_neg, UInt32.add_assoc, ← UInt32.sub_eq_add_neg, UInt32.sub_self,
    UInt32.add_zero]

namespace NvmKvStore

variable (store : NvmKvStore)

/-- The bits of the pools are inside the bytes of a bitmap. -/
theorem word_inside {pool : Nat} (bounded : pool < store.maxPools) :
    pool / 32 * 4 < store.bmLen := by
  have limit : store.maxPools ≤ 1048576 := store.poolsBounded
  have rounded := store.round_upto_sector_bounds (round32 store.maxPools / 8)
    (by unfold round32; omega)
  have enough := rounded.1
  rw [bmLen]
  unfold round32 at enough ⊢
  omega

end NvmKvStore

namespace NvmKvPoolMgr

variable {store : NvmKvStore} {mgr : NvmKvPoolMgr} {media : PoolMedia}

/-- The manager after an id was given out for a tag. -/
def allocated (mgr : NvmKvPoolMgr) (poolTag : Option NvmKvPoolTag) (poolId : Nat) :
    NvmKvPoolMgr :=
  { mgr with
    inUse := bitmapSet mgr.inUse poolId
    poolTags := Function.update mgr.poolTags poolId (poolTag.getD .zero)
    tagsMap :=
      match poolTag with
      | some tag => if tag.str = [] then mgr.tagsMap else mgr.tagsMap.insert tag.str poolId
      | none => mgr.tagsMap
    totalNoPools := mgr.totalNoPools + 1 }

/-- What `create_pool` does: it finds the tag, refuses, gives out a clear id, or
takes the id back because the write failed. -/
theorem createPool_cases (store : NvmKvStore) (mgr : NvmKvPoolMgr)
    (poolTag : Option NvmKvPoolTag) (written : Bool) (media : PoolMedia) :
    (∃ poolId, mgr.knownPool poolTag = some poolId ∧
      mgr.createPool store poolTag written media = (.ok poolId, mgr, media)) ∨
    (mgr.knownPool poolTag = none ∧
      mgr.createPool store poolTag written media = (.error .invalidInput, mgr, media)) ∨
    ∃ poolId, mgr.knownPool poolTag = none ∧ poolId < store.maxPools ∧
      bitmapTest mgr.inUse poolId = false ∧
      mgr.createPool store poolTag written media =
        if written then
          (.ok poolId, mgr.allocated poolTag poolId,
            (store.persistStoreInfo (mgr.allocated poolTag poolId)
              [.kvstoreMetadata, .bmInuse, .poolTags] (some poolId) true media).2)
        else
          (.error .io, (mgr.allocated poolTag poolId).createFailed (some poolId), media) := by
  rw [createPool]
  cases known : mgr.knownPool poolTag with
  | some poolId => exact Or.inl ⟨poolId, rfl, rfl⟩
  | none =>
      refine Or.inr ?_
      dsimp only
      by_cases many : store.maxPools < mgr.totalNoPools.toNat
      · refine Or.inl ⟨rfl, ?_⟩
        rw [if_pos many, createFailed]
        simp only [totalNoPools_add_sub]
      · rw [if_neg many]
        cases search : bitmapFfa mgr.inUse store.maxPools with
        | mk found inUse =>
            cases found with
            | none =>
                refine Or.inl ⟨rfl, ?_⟩
                simp only [createFailed, totalNoPools_add_sub, bitmapFfa_none search]
            | some poolId =>
                obtain ⟨inside, clear, set⟩ := bitmapFfa_some search
                refine Or.inr ⟨poolId, rfl, inside, clear, ?_⟩
                subst set
                cases written with
                | true =>
                    cases poolTag with
                    | none => simp [NvmKvStore.persistStoreInfo, allocated]
                    | some tag =>
                        by_cases empty : tag.str = []
                        · simp [NvmKvStore.persistStoreInfo, allocated, empty]
                        · simp [NvmKvStore.persistStoreInfo, allocated, empty]
                | false =>
                    cases poolTag with
                    | none => simp [NvmKvStore.persistStoreInfo, allocated]
                    | some tag =>
                        by_cases empty : tag.str = []
                        · simp [NvmKvStore.persistStoreInfo, allocated, empty]
                        · simp [NvmKvStore.persistStoreInfo, allocated, empty]

end NvmKvPoolMgr
/-- A copied deletion bit is a bit of the deletion bitmap. -/
theorem NvmKvPoolMgr.copied_marked {store : NvmKvStore} {mgr : NvmKvPoolMgr} {i : Nat}
    (copied : bitmapTest (mgr.getPoolDeletionBitmap store).1 i = true) :
    bitmapTest mgr.deleted i = true := by
  rw [getPoolDeletionBitmap, bitmapTest_eq] at copied
  dsimp only at copied
  split_ifs at copied with inside
  · rwa [bitmapTest_eq]
  · simp at copied

/-- Deleting refuses, finds the pool being deleted already, or marks pools. -/
theorem NvmKvPoolMgr.kvPoolDelete_cases (store : NvmKvStore) (mgr : NvmKvPoolMgr)
    (poolId : UInt32) (written : Bool) (media : PoolMedia) :
    ((mgr.kvPoolDelete store poolId written media).2.1 = mgr ∧
      (mgr.kvPoolDelete store poolId written media).2.2 = media) ∨
    poolId ≠ defaultPoolId ∧ mgr.kvPoolDelete store poolId written media =
      mgr.deletePoolLocked store poolId written media := by
  rw [kvPoolDelete]
  by_cases default : poolId = defaultPoolId
  · rw [if_pos default]
    exact Or.inl ⟨rfl, rfl⟩
  rw [if_neg default]
  by_cases refused : mgr.checkPoolStatus poolId ≠ .poolInUse ∧ poolId ≠ poolIdAll
  · rw [if_pos refused]
    exact Or.inl ⟨rfl, rfl⟩
  rw [if_neg refused, deletePool]
  by_cases invalid : poolId ≠ poolIdAll ∧ (mgr.checkPoolStatus poolId = .poolIsInvalid ∨
      mgr.checkPoolStatus poolId = .poolNotInUse)
  · rw [if_pos invalid]
    exact Or.inl ⟨rfl, rfl⟩
  rw [if_neg invalid]
  by_cases inDeletion :
      poolId ≠ poolIdAll ∧ mgr.checkPoolStatus poolId = .poolDeletionInProgress
  · rw [if_pos inDeletion]
    exact Or.inl ⟨rfl, rfl⟩
  rw [if_neg inDeletion]
  exact Or.inr ⟨default, rfl⟩

/-- The books: the default pool is in use and stays, a pool marked for deletion
or waiting to be cleared is in use, ids in use are below the limit, and the count
is the number of them. -/
structure Bookkeeping (store : NvmKvStore) (mgr : NvmKvPoolMgr) (pending : Nat → Bool) :
    Prop where
  defaultInUse : bitmapTest mgr.inUse 0 = true
  defaultKept : bitmapTest mgr.deleted 0 = false
  deletedInUse : ∀ i, bitmapTest mgr.deleted i = true → bitmapTest mgr.inUse i = true
  inUseBounded : ∀ i, bitmapTest mgr.inUse i = true → i < store.maxPools
  pendingInUse : ∀ i, pending i = true → bitmapTest mgr.inUse i = true ∧ 0 < i
  counted : mgr.totalNoPools.toNat = countBits mgr.inUse store.maxPools

namespace Bookkeeping

variable {store : NvmKvStore} {mgr changed : NvmKvPoolMgr} {pending : Nat → Bool}

/-- The books are about the bits and the count. -/
theorem congr (books : Bookkeeping store mgr pending)
    (inUse : ∀ i, bitmapTest changed.inUse i = bitmapTest mgr.inUse i)
    (deleted : ∀ i, bitmapTest changed.deleted i = bitmapTest mgr.deleted i)
    (total : changed.totalNoPools = mgr.totalNoPools) :
    Bookkeeping store changed pending where
  defaultInUse := by rw [inUse]; exact books.defaultInUse
  defaultKept := by rw [deleted]; exact books.defaultKept
  deletedInUse := by
    intro i
    rw [inUse, deleted]
    exact books.deletedInUse i
  inUseBounded := by
    intro i
    rw [inUse]
    exact books.inUseBounded i
  pendingInUse := by
    intro i
    rw [inUse]
    exact books.pendingInUse i
  counted := by
    rw [total, books.counted]
    unfold countBits
    simp only [inUse]

/-- The books of a manager just created are right: only the default pool is in use. -/
theorem created (store : NvmKvStore) (poolTags : Nat → NvmKvPoolTag) :
    Bookkeeping store (NvmKvPoolMgr.created poolTags) fun _ => false where
  defaultInUse := by simp [NvmKvPoolMgr.created, bitmapTest_set, defaultPoolId]
  defaultKept := by simp [NvmKvPoolMgr.created]
  deletedInUse := by simp [NvmKvPoolMgr.created]
  inUseBounded := by
    intro i used
    have default : i = 0 := by
      simpa [NvmKvPoolMgr.created, bitmapTest_set, defaultPoolId] using used
    rw [default]
    exact store.poolsPositive
  pendingInUse := by simp
  counted := by
    have counted := @countBits_set .zero _ _ store.poolsPositive (bitmapTest_zero 0)
    have empty : countBits .zero store.maxPools = 0 := by simp [countBits]
    rw [empty] at counted
    exact counted.symm

/-- Giving out a clear id counts one pool more. -/
theorem allocated (books : Bookkeeping store mgr pending) (poolTag : Option NvmKvPoolTag)
    {poolId : Nat} (inside : poolId < store.maxPools)
    (clear : bitmapTest mgr.inUse poolId = false) :
    Bookkeeping store (mgr.allocated poolTag poolId) pending where
  defaultInUse := by simp [NvmKvPoolMgr.allocated, bitmapTest_set, books.defaultInUse]
  defaultKept := books.defaultKept
  deletedInUse := by
    intro i marked
    simp [NvmKvPoolMgr.allocated, bitmapTest_set, books.deletedInUse i marked]
  inUseBounded := by
    intro i used
    have either : i = poolId ∨ bitmapTest mgr.inUse i = true := by
      simpa [NvmKvPoolMgr.allocated, bitmapTest_set] using used
    rcases either with same | used
    · rwa [same]
    · exact books.inUseBounded i used
  pendingInUse := by
    intro i due
    obtain ⟨used, positive⟩ := books.pendingInUse i due
    exact ⟨by simp [NvmKvPoolMgr.allocated, bitmapTest_set, used], positive⟩
  counted := by
    have limit : store.maxPools ≤ nvmKvMaxPools := store.poolsBounded
    have counted := books.counted
    have few := countBits_le mgr.inUse store.maxPools
    change (mgr.totalNoPools + 1).toNat = _
    rw [totalNoPools_succ _ (by omega), counted]
    exact (countBits_set inside clear).symm

/-- Taking an id back leaves the books as they were before it was given out. -/
theorem createFailed (books : Bookkeeping store mgr pending) (poolTag : Option NvmKvPoolTag)
    {poolId : Nat} (clear : bitmapTest mgr.inUse poolId = false) :
    Bookkeeping store ((mgr.allocated poolTag poolId).createFailed (some poolId)) pending := by
  have positive : 0 < poolId := by
    apply Nat.pos_of_ne_zero
    intro zero
    rw [zero, books.defaultInUse] at clear
    exact Bool.noConfusion clear
  refine books.congr ?_ (fun _ => rfl) (totalNoPools_add_sub _)
  intro i
  rw [NvmKvPoolMgr.createFailed]
  dsimp only
  rw [if_pos positive]
  by_cases same : i = poolId
  · simp [same, bitmapTest_clear, clear]
  · simp [same, bitmapTest_clear, NvmKvPoolMgr.allocated, bitmapTest_set]

/-- A creation keeps the books right, also one whose write fails. -/
theorem createPool (books : Bookkeeping store mgr pending) (poolTag : Option NvmKvPoolTag)
    (written : Bool) (media : PoolMedia) :
    Bookkeeping store (mgr.createPool store poolTag written media).2.1 pending := by
  obtain ⟨_, _, result⟩ | ⟨_, result⟩ | ⟨poolId, _, inside, clear, result⟩ :=
    mgr.createPool_cases store poolTag written media
  · rwa [result]
  · rwa [result]
  · rw [result]
    cases written with
    | true => exact books.allocated poolTag inside clear
    | false => exact books.createFailed poolTag clear

/-- Marking a pool that is not the default one. -/
theorem markDeleted (books : Bookkeeping store mgr pending) {poolId : Nat} (positive : 0 < poolId) :
    Bookkeeping store (mgr.markDeleted poolId) pending := by
  rw [NvmKvPoolMgr.markDeleted]
  split_ifs with used
  · exact
      { defaultInUse := books.defaultInUse
        defaultKept := by simp [bitmapTest_set, books.defaultKept, Nat.ne_of_lt positive]
        deletedInUse := by
          intro i marked
          have either : i = poolId ∨ bitmapTest mgr.deleted i = true := by
            simpa [bitmapTest_set] using marked
          rcases either with same | marked
          · rwa [same]
          · exact books.deletedInUse i marked
        inUseBounded := books.inUseBounded
        pendingInUse := books.pendingInUse
        counted := books.counted }
  · exact books

/-- So does the undoing of a mark. -/
theorem unmarkDeleted (books : Bookkeeping store mgr pending) (poolId : Nat) :
    Bookkeeping store (mgr.unmarkDeleted poolId) pending := by
  rw [NvmKvPoolMgr.unmarkDeleted]
  split_ifs with used
  · exact
      { defaultInUse := books.defaultInUse
        defaultKept := by simp [bitmapTest_clear, books.defaultKept]
        deletedInUse := by
          intro i marked
          have kept : ¬i = poolId ∧ bitmapTest mgr.deleted i = true := by
            simpa [bitmapTest_clear] using marked
          exact books.deletedInUse i kept.2
        inUseBounded := books.inUseBounded
        pendingInUse := books.pendingInUse
        counted := books.counted }
  · exact books

end Bookkeeping

/-- The default pool is not among the ids a deletion of a store walks over. -/
theorem idsToDelete_positive (store : NvmKvStore) {poolId : UInt32}
    (other : poolId ≠ defaultPoolId) {i : Nat}
    (member : i ∈ NvmKvPoolMgr.idsToDelete store poolId) : 0 < i := by
  rw [NvmKvPoolMgr.idsToDelete] at member
  split_ifs at member with all
  · rw [List.mem_range'_1] at member
    omega
  · rw [List.mem_singleton] at member
    rw [member]
    apply Nat.pos_of_ne_zero
    intro zero
    exact other (UInt32.toNat_inj.mp zero)

/-- A walk over ids keeps what every step of it keeps. -/
theorem foldl_keeps {α β : Type} (holds : α → Prop) {advance : α → β → α} {items : List β}
    {start : α} (initially : holds start)
    (kept : ∀ state, holds state → ∀ item ∈ items, holds (advance state item)) :
    holds (items.foldl advance start) := by
  induction items generalizing start with
  | nil => exact initially
  | cons item items inductionHypothesis =>
      refine inductionHypothesis (kept start initially item List.mem_cons_self) ?_
      intro state keeps other member
      exact kept state keeps other (List.mem_cons_of_mem _ member)

namespace Bookkeeping

variable {store : NvmKvStore} {mgr : NvmKvPoolMgr} {pending : Nat → Bool}

/-- Deleting marks pools, and takes the marks back when the write fails. -/
theorem deletePoolLocked (books : Bookkeeping store mgr pending) {poolId : UInt32}
    (other : poolId ≠ defaultPoolId) (written : Bool) (media : PoolMedia) :
    Bookkeeping store (mgr.deletePoolLocked store poolId written media).2.1 pending := by
  have marked : Bookkeeping store
      ((NvmKvPoolMgr.idsToDelete store poolId).foldl NvmKvPoolMgr.markDeleted mgr) pending :=
    foldl_keeps (Bookkeeping store · pending) books fun _ books _ member =>
      books.markDeleted (idsToDelete_positive store other member)
  cases written with
  | true => exact marked
  | false =>
      exact foldl_keeps (Bookkeeping store · pending) marked fun _ books i _ =>
        books.unmarkDeleted i

/-- So does the call that marks a pool, or all of them, whatever the write does. -/
theorem kvPoolDelete (books : Bookkeeping store mgr pending) (poolId : UInt32) (written : Bool)
    (media : PoolMedia) :
    Bookkeeping store (mgr.kvPoolDelete store poolId written media).2.1 pending := by
  obtain same | ⟨other, result⟩ := mgr.kvPoolDelete_cases store poolId written media
  · rwa [same.1]
  · rw [result]
    exact books.deletePoolLocked other written media

/-- The copied deletion bits are bits of pools in use. -/
theorem snapshot (books : Bookkeeping store mgr pending) :
    Bookkeeping store mgr (bitmapTest (mgr.getPoolDeletionBitmap store).1) where
  defaultInUse := books.defaultInUse
  defaultKept := books.defaultKept
  deletedInUse := books.deletedInUse
  inUseBounded := books.inUseBounded
  pendingInUse := by
    intro i due
    have marked := NvmKvPoolMgr.copied_marked due
    refine ⟨books.deletedInUse i marked, ?_⟩
    apply Nat.pos_of_ne_zero
    intro zero
    rw [zero, books.defaultKept] at marked
    exact Bool.noConfusion marked
  counted := books.counted

/-- Clearing a pending pool, whose mark may be gone already. -/
theorem clearOne (books : Bookkeeping store mgr pending) {poolId : Nat}
    (due : pending poolId = true) (deleted : KvBitmap)
    (unmarked : ∀ i, bitmapTest deleted i = true → i ≠ poolId ∧ bitmapTest mgr.deleted i = true) :
    Bookkeeping store
      { mgr with
        deleted := deleted
        inUse := bitmapClear mgr.inUse poolId
        totalNoPools := mgr.totalNoPools - 1 }
      (Function.update pending poolId false) := by
  obtain ⟨used, positive⟩ := books.pendingInUse poolId due
  have inside := books.inUseBounded poolId used
  exact
    { defaultInUse := by
        simp [bitmapTest_clear, books.defaultInUse, Nat.ne_of_lt positive]
      defaultKept := by
        cases marked : bitmapTest deleted 0 with
        | false => rfl
        | true =>
            have before := (unmarked 0 marked).2
            rw [books.defaultKept] at before
            exact before.symm
      deletedInUse := by
        intro i marked
        obtain ⟨other, before⟩ := unmarked i marked
        simp [bitmapTest_clear, other, books.deletedInUse i before]
      inUseBounded := by
        intro i kept
        have before : ¬i = poolId ∧ bitmapTest mgr.inUse i = true := by
          simpa [bitmapTest_clear] using kept
        exact books.inUseBounded i before.2
      pendingInUse := by
        intro i remains
        by_cases same : i = poolId
        · simp [same] at remains
        · rw [Function.update_of_ne same] at remains
          obtain ⟨before, above⟩ := books.pendingInUse i remains
          exact ⟨by simp [bitmapTest_clear, same, before], above⟩
      counted := by
        have counted := books.counted
        have fewer := countBits_clear inside used
        have down := totalNoPools_pred mgr.totalNoPools (by omega)
        dsimp only
        omega }

/-- Fewer ids may be pending. -/
theorem weaken (books : Bookkeeping store mgr pending) {fewer : Nat → Bool}
    (among : ∀ i, fewer i = true → pending i = true) : Bookkeeping store mgr fewer where
  defaultInUse := books.defaultInUse
  defaultKept := books.defaultKept
  deletedInUse := books.deletedInUse
  inUseBounded := books.inUseBounded
  pendingInUse := fun i due => books.pendingInUse i (among i due)
  counted := books.counted

/-- The walk that clears the pools of a bitmap, by induction along the ids. Once
the deletion bits were zeroed no mark is left. -/
theorem clearStep_foldl (clearPoolBitmap : KvBitmap) (zeroed : Bool) :
    ∀ (ids : List Nat) (mgr : NvmKvPoolMgr) (pending : Nat → Bool),
      Bookkeeping store mgr pending → ids.Nodup →
      (∀ i ∈ ids, bitmapTest clearPoolBitmap i = true → pending i = true) →
      (zeroed = true → ∀ i, bitmapTest mgr.deleted i = false) →
      Bookkeeping store (ids.foldl (NvmKvPoolMgr.clearStep clearPoolBitmap zeroed) mgr)
        fun i => pending i && !(decide (i ∈ ids) && bitmapTest clearPoolBitmap i) := by
  intro ids
  induction ids with
  | nil =>
      intro mgr pending books _ _ _
      simpa using books
  | cons id ids inductionHypothesis =>
      intro mgr pending books distinct due unmarked
      obtain ⟨apart, distinct⟩ := List.nodup_cons.mp distinct
      rw [List.foldl_cons, NvmKvPoolMgr.clearStep]
      by_cases chosen : bitmapTest clearPoolBitmap id = true
      · rw [if_pos chosen]
        have cleared := books.clearOne (due id List.mem_cons_self chosen)
          (if zeroed then mgr.deleted else bitmapClear mgr.deleted id) (by
            intro i marked
            cases zeroed with
            | true =>
                rw [if_pos rfl, unmarked rfl i] at marked
                exact Bool.noConfusion marked
            | false =>
                simpa [bitmapTest_clear] using marked)
        have walked := inductionHypothesis _ _ cleared distinct (by
          intro i member selected
          have other : i ≠ id := fun same => apart (same ▸ member)
          rw [Function.update_of_ne other]
          exact due i (List.mem_cons_of_mem _ member) selected) (by
          intro done i
          dsimp only
          rw [if_pos done]
          exact unmarked done i)
        refine walked.weaken ?_
        intro i remains
        by_cases same : i = id
        · simp [same, chosen] at remains
        · simpa [same] using remains
      · rw [if_neg chosen]
        have walked := inductionHypothesis mgr pending books distinct
          (fun i member => due i (List.mem_cons_of_mem _ member)) unmarked
        refine walked.weaken ?_
        intro i remains
        by_cases same : i = id
        · simpa [same, chosen] using remains
        · simpa [same] using remains

/-- Every mark is in the bytes of the bitmap, so zeroing them leaves none. -/
theorem zeroed (books : Bookkeeping store mgr pending) (i : Nat) :
    bitmapTest (fun word => if word * 4 < store.bmLen then 0 else mgr.deleted word) i = false := by
  cases marked : bitmapTest mgr.deleted i with
  | true =>
      have inside := store.word_inside (books.inUseBounded i (books.deletedInUse i marked))
      rw [bitmapTest_eq, if_pos inside]
      exact BitVec.getLsbD_zero
  | false =>
      rw [bitmapTest_eq] at marked ⊢
      split_ifs
      · exact BitVec.getLsbD_zero
      · exact marked

/-- Clearing a copy of due pools leaves those due that are not in it. -/
theorem clearPoolBitmaps (books : Bookkeeping store mgr pending) {clearPoolBitmap : KvBitmap}
    (due : ∀ i, bitmapTest clearPoolBitmap i = true → pending i = true) (written : Bool)
    (media : PoolMedia) :
    Bookkeeping store (mgr.clearPoolBitmaps store clearPoolBitmap written media).2.1
      fun i => pending i && !bitmapTest clearPoolBitmap i := by
  have distinct : (List.range' 1 (store.maxPools - 1)).Nodup := List.nodup_range'
  have remaining : ∀ i, (pending i && !bitmapTest clearPoolBitmap i) = true →
      (pending i && !(decide (i ∈ List.range' 1 (store.maxPools - 1)) &&
        bitmapTest clearPoolBitmap i)) = true := by
    intro i remains
    simp only [Bool.and_eq_true, Bool.not_eq_true'] at remains ⊢
    exact ⟨remains.1, by simp [remains.2]⟩
  have walked : Bookkeeping store ((List.range' 1 (store.maxPools - 1)).foldl
      (NvmKvPoolMgr.clearStep clearPoolBitmap
        (NvmKvPoolMgr.sameBitmap store mgr.deleted clearPoolBitmap))
      (if NvmKvPoolMgr.sameBitmap store mgr.deleted clearPoolBitmap then
        { mgr with deleted := fun word => if word * 4 < store.bmLen then 0 else mgr.deleted word }
      else mgr)) fun i => pending i && !bitmapTest clearPoolBitmap i := by
    cases same : NvmKvPoolMgr.sameBitmap store mgr.deleted clearPoolBitmap with
    | true =>
        have blank : Bookkeeping store
            { mgr with
              deleted := fun word => if word * 4 < store.bmLen then 0 else mgr.deleted word }
            pending :=
          { books with
            defaultKept := books.zeroed 0
            deletedInUse := by
              intro i marked
              rw [books.zeroed i] at marked
              exact Bool.noConfusion marked }
        exact (clearStep_foldl clearPoolBitmap true _ _ _ blank distinct (fun i _ => due i)
          fun _ => books.zeroed).weaken remaining
    | false =>
        exact (clearStep_foldl clearPoolBitmap false _ _ _ books distinct (fun i _ => due i)
          fun impossible => Bool.noConfusion impossible).weaken remaining
  cases written with
  | true => exact walked
  | false => exact walked.congr (fun _ => rfl) (fun _ => rfl) rfl

/-- Clearing one pool leaves the others due. -/
theorem clearPoolBitmap (books : Bookkeeping store mgr pending) {poolId : Nat}
    (due : pending poolId = true) (written : Bool) (media : PoolMedia) :
    Bookkeeping store (mgr.clearPoolBitmap store poolId written media).2.1
      (Function.update pending poolId false) := by
  refine books.clearOne due (bitmapClear mgr.deleted poolId) ?_
  intro i marked
  simpa [bitmapTest_clear] using marked

/-- Every step keeps the books. -/
theorem step {written : Bool} {state next : PoolState}
    (books : Bookkeeping store state.mgr state.pending)
    (taken : PoolState.Step store written state next) :
    Bookkeeping store next.mgr next.pending := by
  cases taken with
  | create poolTag free => exact books.createPool poolTag written state.media
  | delete poolId free => exact books.kvPoolDelete poolId written state.media
  | snapshot free => exact books.snapshot
  | clearBitmap clearPoolBitmap free due => exact books.clearPoolBitmaps due written state.media
  | clearId poolId free due => exact books.clearPoolBitmap due written state.media

/-- The books agree in every state a new store reaches. -/
theorem reached {allowed : Bool → Prop} {state : PoolState}
    (run : PoolState.Reached store allowed state) :
    Bookkeeping store state.mgr state.pending := by
  induction run with
  | created poolTags media => exact created store poolTags
  | step _ _ taken inductionHypothesis => exact inductionHypothesis.step taken

end Bookkeeping

/-- Between the steps of any run of a new store, whatever becomes of its writes,
the default pool is in use and not marked, marked pools are in use, the count is
the number of pools in use, and an id that is given out next was neither in use,
marked, nor waiting to be cleared. -/
theorem pool_bookkeeping (store : NvmKvStore) {state : PoolState}
    (run : PoolState.Reached store (fun _ => True) state) :
    bitmapTest state.mgr.inUse 0 = true ∧ bitmapTest state.mgr.deleted 0 = false ∧
      (∀ i, bitmapTest state.mgr.deleted i = true → bitmapTest state.mgr.inUse i = true) ∧
      state.mgr.totalNoPools.toNat = countBits state.mgr.inUse store.maxPools ∧
      ∀ (poolTag : Option NvmKvPoolTag) (written : Bool) (poolId : Nat),
        state.mgr.knownPool poolTag = none →
        (state.mgr.createPool store poolTag written state.media).1 = .ok poolId →
        poolId < store.maxPools ∧ bitmapTest state.mgr.inUse poolId = false ∧
          bitmapTest state.mgr.deleted poolId = false ∧ state.pending poolId = false := by
  have books := Bookkeeping.reached run
  refine ⟨books.defaultInUse, books.defaultKept, books.deletedInUse, books.counted, ?_⟩
  intro poolTag written poolId unknown given
  obtain ⟨_, known, _⟩ | ⟨_, result⟩ | ⟨id, _, inside, clear, result⟩ :=
    state.mgr.createPool_cases store poolTag written state.media
  · rw [unknown] at known
    cases known
  · rw [result] at given
    cases given
  · rw [result] at given
    cases written with
    | false => cases given
    | true =>
        have same : id = poolId := Except.ok.inj given
        subst same
        refine ⟨inside, clear, ?_, ?_⟩
        · cases marked : bitmapTest state.mgr.deleted id with
          | false => rfl
          | true =>
              rw [books.deletedInUse id marked] at clear
              exact Bool.noConfusion clear
        · cases due : state.pending id with
          | false => rfl
          | true =>
              rw [(books.pendingInUse id due).1] at clear
              exact Bool.noConfusion clear

/-- A store with four pools, just created on a blank device. -/
def openedPools : PoolState :=
  PoolState.created NvmKvStore.terabyteStore (fun _ => .zero)
    { inUse := .zero, deleted := .zero, poolTags := fun _ => .zero, totalNoPools := 0 }

/-- Two pools are created and the first one is deleted. A pool created before its id was
cleared gets another one. After the clearing the count is that of the pools in use, and the
next id is the cleared one. -/
theorem pool_bookkeeping_cleared : ∃ state : PoolState,
    PoolState.Reached NvmKvStore.terabyteStore (fun _ => True) state ∧
      bitmapTest state.mgr.inUse 3 = true ∧
      state.mgr.totalNoPools.toNat = 3 ∧
      countBits state.mgr.inUse NvmKvStore.terabyteStore.maxPools = 3 ∧
      (state.mgr.createPool NvmKvStore.terabyteStore none true state.media).1 = .ok 1 ∧
      bitmapTest state.mgr.inUse 1 = false ∧ bitmapTest state.mgr.deleted 1 = false ∧
      state.pending 1 = false := by
  have new : PoolState.Reached NvmKvStore.terabyteStore (fun _ => True) openedPools :=
    .created _ _
  have first := @PoolState.Reached.step _ _ true _ _ new trivial (.create none rfl)
  have second := @PoolState.Reached.step _ _ true _ _ first trivial (.create none rfl)
  have marked := @PoolState.Reached.step _ _ true _ _ second trivial (.delete 1 rfl)
  have third := @PoolState.Reached.step _ _ true _ _ marked trivial (.create none rfl)
  have copied := @PoolState.Reached.step _ _ true _ _ third trivial (.snapshot rfl)
  have cleared := @PoolState.Reached.step _ _ true _ _ copied trivial
    (.clearId 1 rfl (by decide +kernel))
  obtain ⟨_, _, _, counted, fresh⟩ := pool_bookkeeping NvmKvStore.terabyteStore cleared
  refine ⟨_, cleared, by decide +kernel, by decide +kernel, counted.symm.trans (by decide +kernel),
    by decide +kernel, ?_⟩
  obtain ⟨_, unused, unmarked, idle⟩ := fresh none true 1 rfl (by decide +kernel)
  exact ⟨unused, unmarked, idle⟩

end Nvmkv
