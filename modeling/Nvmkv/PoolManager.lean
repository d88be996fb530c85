import Nvmkv.Bitmap
import Nvmkv.StoreMachine

/-!
# The pool manager

`kv_pool_manager.cpp`: which pool ids are in use, which of those are being
deleted, the tag of each pool, the map from tags to ids and the count of pools
in the store's metadata. Creating a pool, deleting one or all, copying out the
deletion bits and clearing pools whose pairs are gone run under the mutex of the
bitmaps, so each is one step here.

The media keep the metadata, the two bitmaps and the tags in regions of their
own. A write for one pool copies the sectors of that pool out of the memory of
the manager and a write without a pool copies whole structures. The write is one
atomic batch; whether the device accepts it is a parameter of each step. A
manager opened on an existing store reads the four structures back.

A tag is a string that ends with its first NUL byte, and no tag is read past its
sixteen bytes.
-/

namespace Nvmkv

/-- A pool's tag (`nvm_kv_pool_tag_t`). -/
structure NvmKvPoolTag where
  poolTag : Vector UInt8 16
  deriving DecidableEq

/-- The tag of zeroed memory. -/
def NvmKvPoolTag.zero : NvmKvPoolTag := ⟨Vector.replicate 16 0⟩

/-- The tag read as a string. -/
def NvmKvPoolTag.str (tag : NvmKvPoolTag) : List UInt8 :=
  tag.poolTag.toList.takeWhile (· ≠ 0)

/-- A tag of zeros is the empty string. -/
@[simp] theorem NvmKvPoolTag.str_zero : NvmKvPoolTag.zero.str = [] := by decide

/-- A map from tag strings to pool ids. -/
abbrev TagsMap := List UInt8 → Option Nat

/-- `map::insert`, which keeps an entry that is there. -/
def TagsMap.insert (tagsMap : TagsMap) (tag : List UInt8) (poolId : Nat) : TagsMap :=
  if tagsMap tag = none then Function.update tagsMap tag (some poolId) else tagsMap

/-- Forget the pool of a tag. -/
def TagsMap.erase (tagsMap : TagsMap) (tag : List UInt8) : TagsMap :=
  Function.update tagsMap tag none

/-- The manager of a store. The mutex is held between steps only after
a step returned without releasing it. -/
structure NvmKvPoolMgr where
  inUse : KvBitmap
  deleted : KvBitmap
  poolTags : Nat → NvmKvPoolTag
  tagsMap : TagsMap
  totalNoPools : UInt32
  mutexHeld : Bool

/-- What the media hold of it. -/
structure PoolMedia where
  inUse : KvBitmap
  deleted : KvBitmap
  poolTags : Nat → NvmKvPoolTag
  totalNoPools : UInt32

/-- The structures a write takes (`M_KVSTORE_METADATA` and the others). -/
inductive StoreInfo where
  | kvstoreMetadata
  | bmInuse
  | bmDeleted
  | poolTags
  deriving DecidableEq

/-- The pool that every store has. -/
def defaultPoolId : UInt32 := 0

/-- The id that stands for all pools. -/
def poolIdAll : UInt32 := 0xFFFFFFFF

/-- The sector of a bitmap that has a pool's bit. -/
def bitIndexSector (poolId sectorBits : Nat) : Nat := poolId >>> (sectorBits + 3)

namespace NvmKvStore

variable (store : NvmKvStore)

/-- The bits of an address within a sector. -/
def sectBits : Nat := Nat.log2 store.sectorSize

/-- Bytes of a bitmap in memory and on the media. -/
def bmLen : Nat := nvmKvRoundUptoBlk (round32 store.maxPools / 8) store.sectorSize

/-- Bytes of the tags in memory and on the media (`m_poolTagSize`). -/
def poolTagsLen : Nat := nvmKvRoundUptoBlk (poolTagSize * store.maxPools) store.sectorSize

/-- The sector of the tags that has a pool's tag. -/
def getPoolTagSect (poolId : Nat) : Nat := (poolId * poolTagSize) >>> store.sectBits

/-- A bitmap of the media after a write of the whole bitmap or of one sector. -/
def writeBitmap (poolIndex : Option Nat) (memory media : KvBitmap) : KvBitmap := fun word =>
  match poolIndex with
  | none => if word * 4 < store.bmLen then memory word else media word
  | some index =>
      if (word * 4) >>> store.sectBits = bitIndexSector index store.sectBits then memory word
      else media word

/-- The tags of the media after a write of all tags or of one sector. -/
def writePoolTags (poolIndex : Option Nat) (memory media : Nat → NvmKvPoolTag) :
    Nat → NvmKvPoolTag := fun pool =>
  match poolIndex with
  | none => if pool * poolTagSize < store.poolTagsLen then memory pool else media pool
  | some index =>
      if store.getPoolTagSect pool = store.getPoolTagSect index then memory pool else media pool

/-- Write structures of the manager to the media. The device accepts the write
or fails it as a whole. -/
def persistStoreInfo (mgr : NvmKvPoolMgr) (type : List StoreInfo) (poolIndex : Option Nat)
    (written : Bool) (media : PoolMedia) : Except NvmErrorCode Unit × PoolMedia :=
  if written then
    (.ok (),
      { inUse :=
          if .bmInuse ∈ type then store.writeBitmap poolIndex mgr.inUse media.inUse
          else media.inUse
        deleted :=
          if .bmDeleted ∈ type then store.writeBitmap poolIndex mgr.deleted media.deleted
          else media.deleted
        poolTags :=
          if .poolTags ∈ type then store.writePoolTags poolIndex mgr.poolTags media.poolTags
          else media.poolTags
        totalNoPools :=
          if .kvstoreMetadata ∈ type then mgr.totalNoPools else media.totalNoPools })
  else
    (.error .io, media)

end NvmKvStore

namespace NvmKvPoolMgr

variable (store : NvmKvStore) (mgr : NvmKvPoolMgr)

/-- The status of a pool id (`check_pool_status`). -/
def checkPoolStatus (poolId : UInt32) : PoolStatus :=
  poolStatus (bitmapTest mgr.inUse) (bitmapTest mgr.deleted) poolId

/-- The manager of a store just created. The memory of the tags is not
initialised. -/
def created (poolTags : Nat → NvmKvPoolTag) : NvmKvPoolMgr where
  inUse := bitmapSet .zero defaultPoolId.toNat
  deleted := .zero
  poolTags := poolTags
  tagsMap := fun _ => none
  totalNoPools := 1
  mutexHeld := false

/-- The tag of a pool that is in use and not being deleted, else an empty one. -/
def getPoolTag (poolId : Nat) : NvmKvPoolTag :=
  if mgr.checkPoolStatus (UInt32.ofNat poolId) = .poolInUse then mgr.poolTags poolId else .zero

/-- The pool that a tag is known for. -/
def knownPool (poolTag : Option NvmKvPoolTag) : Option Nat :=
  match poolTag with
  | none => none
  | some tag => if tag.str = [] then none else mgr.tagsMap tag.str

/-- Undo what was taken for a pool that is not created. -/
def createFailed (poolId : Option Nat) : NvmKvPoolMgr :=
  { mgr with
    inUse :=
      match poolId with
      | some id => if 0 < id then bitmapClear mgr.inUse id else mgr.inUse
      | none => mgr.inUse
    totalNoPools := mgr.totalNoPools - 1 }

/-- Create a pool, or find the pool that has the tag (`create_pool`). The count
is compared before it grows. -/
def createPool (poolTag : Option NvmKvPoolTag) (written : Bool) (media : PoolMedia) :
    Except NvmErrorCode Nat × NvmKvPoolMgr × PoolMedia :=
  match mgr.knownPool poolTag with
  | some poolId => (.ok poolId, mgr, media)
  | none =>
      let counted := { mgr with totalNoPools := mgr.totalNoPools + 1 }
      if store.maxPools < mgr.totalNoPools.toNat then
        (.error .invalidInput, counted.createFailed none, media)
      else
        match bitmapFfa counted.inUse store.maxPools with
        | (none, inUse) =>
            (.error .invalidInput, { counted with inUse := inUse }.createFailed none, media)
        | (some poolId, inUse) =>
            let taken :=
              { counted with
                inUse := inUse
                poolTags := Function.update counted.poolTags poolId (poolTag.getD .zero) }
            let (retval, media) := store.persistStoreInfo taken
              [.kvstoreMetadata, .bmInuse, .poolTags] (some poolId) written media
            let named :=
              match poolTag with
              | some tag =>
                  if tag.str = [] then taken
                  else { taken with tagsMap := taken.tagsMap.insert tag.str poolId }
              | none => taken
            match retval with
            | .ok () => (.ok poolId, named, media)
            | .error code => (.error code, named.createFailed (some poolId), media)

/-- The ids a deletion walks over: the given one, or all from 1 on. The walk
tests its bound after the first id. -/
def idsToDelete (poolId : UInt32) : List Nat :=
  if poolId = poolIdAll then List.range' 1 (max 1 (store.maxPools - 1)) else [poolId.toNat]

/-- Mark a pool in use for deletion; its tag is forgotten. -/
def markDeleted (poolId : Nat) : NvmKvPoolMgr :=
  if bitmapTest mgr.inUse poolId then
    { mgr with
      poolTags := Function.update mgr.poolTags poolId .zero
      tagsMap := mgr.tagsMap.erase (mgr.poolTags poolId).str
      deleted := bitmapSet mgr.deleted poolId }
  else mgr

/-- Take the mark back. The tag stays forgotten. -/
def unmarkDeleted (poolId : Nat) : NvmKvPoolMgr :=
  if bitmapTest mgr.inUse poolId then { mgr with deleted := bitmapClear mgr.deleted poolId }
  else mgr

/-- The part of `delete_pool` under the mutex: mark the pools and write the
deletion bitmap, or take the marks back. -/
def deletePoolLocked (poolId : UInt32) (written : Bool) (media : PoolMedia) :
    Except NvmErrorCode Unit × NvmKvPoolMgr × PoolMedia :=
  let ids := idsToDelete store poolId
  let marked := ids.foldl markDeleted mgr
  let index := if poolId = poolIdAll then none else some poolId.toNat
  match store.persistStoreInfo marked [.bmDeleted] index written media with
  | (.ok (), media) => (.ok (), marked, media)
  | (.error code, media) => (.error code, ids.foldl unmarkDeleted marked, media)

/-- Mark a pool or all pools for deletion (`delete_pool`). -/
def deletePool (poolId : UInt32) (written : Bool) (media : PoolMedia) :
    Except NvmErrorCode Unit × NvmKvPoolMgr × PoolMedia :=
  let status := mgr.checkPoolStatus poolId
  if poolId ≠ poolIdAll ∧ (status = .poolIsInvalid ∨ status = .poolNotInUse) then
    (.error .invalidInput, mgr, media)
  else if poolId ≠ poolIdAll ∧ status = .poolDeletionInProgress then
    (.ok (), mgr, media)
  else
    mgr.deletePoolLocked store poolId written media

/-- Delete a pool or all pools of a store (`kv_pool_delete`), which the default
pool is not. -/
def kvPoolDelete (poolId : UInt32) (written : Bool) (media : PoolMedia) :
    Except NvmErrorCode Unit × NvmKvPoolMgr × PoolMedia :=
  if poolId = defaultPoolId then
    (.error .invalidInput, mgr, media)
  else if mgr.checkPoolStatus poolId ≠ .poolInUse ∧ poolId ≠ poolIdAll then
    (.error .invalidInput, mgr, media)
  else
    mgr.deletePool store poolId written media

/-- Whether two bitmaps have the same bytes (`memcmp` over `bm_len`). -/
def sameBitmap (pbm other : KvBitmap) : Bool :=
  (List.range (store.bmLen / 4)).all fun word => pbm word = other word

/-- The deletion bits, copied, and whether every pool but the default one is to
be deleted (`get_pool_deletion_bitmap`). -/
def getPoolDeletionBitmap : KvBitmap × Bool :=
  let tmpBitmap := bitmapClear mgr.inUse 0
  (fun word => if word * 4 < store.bmLen then mgr.deleted word else 0,
    sameBitmap store tmpBitmap mgr.deleted)

/-- Clear the bits of one pool of the bitmap to clear. The deletion bits may all
be clear already. -/
def clearStep (clearPoolBitmap : KvBitmap) (deletedPoolBitmapCleared : Bool)
    (mgr : NvmKvPoolMgr) (i : Nat) : NvmKvPoolMgr :=
  if bitmapTest clearPoolBitmap i then
    { mgr with
      deleted := if deletedPoolBitmapCleared then mgr.deleted else bitmapClear mgr.deleted i
      inUse := bitmapClear mgr.inUse i
      totalNoPools := mgr.totalNoPools - 1 }
  else mgr

/-- Clear the pools of a bitmap in both bitmaps (`clear_pool_bitmaps` of
a bitmap). A write that fails returns with the mutex held. -/
def clearPoolBitmaps (clearPoolBitmap : KvBitmap) (written : Bool) (media : PoolMedia) :
    Except NvmErrorCode Unit × NvmKvPoolMgr × PoolMedia :=
  let same := sameBitmap store mgr.deleted clearPoolBitmap
  let zeroed :=
    if same then
      { mgr with deleted := fun word => if word * 4 < store.bmLen then 0 else mgr.deleted word }
    else mgr
  let cleared := (List.range' 1 (store.maxPools - 1)).foldl (clearStep clearPoolBitmap same) zeroed
  match store.persistStoreInfo cleared [.kvstoreMetadata, .bmDeleted, .bmInuse] none written
    media with
  | (.ok (), media) => (.ok (), cleared, media)
  | (.error code, media) => (.error code, { cleared with mutexHeld := true }, media)

/-- Clear one pool in both bitmaps (`clear_pool_bitmaps` of a pool id). -/
def clearPoolBitmap (poolId : Nat) (written : Bool) (media : PoolMedia) :
    Except NvmErrorCode Unit × NvmKvPoolMgr × PoolMedia :=
  let cleared :=
    { mgr with
      deleted := bitmapClear mgr.deleted poolId
      inUse := bitmapClear mgr.inUse poolId
      totalNoPools := mgr.totalNoPools - 1 }
  let (retCode, media) := store.persistStoreInfo cleared
    [.kvstoreMetadata, .bmDeleted, .bmInuse] (some poolId) written media
  (retCode, cleared, media)

/-- The memory of the manager once `restore` has read the media. -/
def readBack (media : PoolMedia) : NvmKvPoolMgr where
  inUse := fun word => if word * 4 < store.bmLen then media.inUse word else 0
  deleted := fun word => if word * 4 < store.bmLen then media.deleted word else 0
  poolTags := media.poolTags
  tagsMap := fun _ => none
  totalNoPools := media.totalNoPools
  mutexHeld := false

/-- Load the pools of an existing store (`restore`). A pool in the deletion
bitmap alone is an error. -/
def restore (media : PoolMedia) : Except NvmErrorCode NvmKvPoolMgr :=
  let read := readBack store media
  let pools := List.range' 1 (store.maxPools - 1)
  if pools.any fun i => bitmapTest read.deleted i && !bitmapTest read.inUse i then
    .error .internalFailure
  else
    .ok { read with
      tagsMap := pools.foldl (fun tagsMap i =>
        let poolTagStr := (read.getPoolTag i).str
        if poolTagStr = [] then tagsMap else tagsMap.insert poolTagStr i) read.tagsMap }

end NvmKvPoolMgr

/-- The manager, its media and the ids that the deletion thread may still clear
for the bitmap it copied. -/
structure PoolState where
  mgr : NvmKvPoolMgr
  media : PoolMedia
  pending : Nat → Bool

namespace PoolState

variable (store : NvmKvStore)

/-- The state of a store just created, which has written everything it keeps. -/
def created (poolTags : Nat → NvmKvPoolTag) (media : PoolMedia) : PoolState :=
  let mgr := NvmKvPoolMgr.created poolTags
  { mgr := mgr
    media := (store.persistStoreInfo mgr [.kvstoreMetadata, .bmInuse, .bmDeleted, .poolTags] none
      true media).2
    pending := fun _ => false }

/-- One call, with the outcome of the write it makes. Nothing is done while the
mutex is held, and only ids that are still pending are cleared. -/
inductive Step (written : Bool) : PoolState → PoolState → Prop where
  | create (poolTag : Option NvmKvPoolTag) {state : PoolState}
      (free : state.mgr.mutexHeld = false) :
      Step written state
        { state with
          mgr := (state.mgr.createPool store poolTag written state.media).2.1
          media := (state.mgr.createPool store poolTag written state.media).2.2 }
  | delete (poolId : UInt32) {state : PoolState} (free : state.mgr.mutexHeld = false) :
      Step written state
        { state with
          mgr := (state.mgr.kvPoolDelete store poolId written state.media).2.1
          media := (state.mgr.kvPoolDelete store poolId written state.media).2.2 }
  | snapshot {state : PoolState} (free : state.mgr.mutexHeld = false) :
      Step written state
        { state with pending := bitmapTest (state.mgr.getPoolDeletionBitmap store).1 }
  | clearBitmap (clearPoolBitmap : KvBitmap) {state : PoolState}
      (free : state.mgr.mutexHeld = false)
      (due : ∀ i, bitmapTest clearPoolBitmap i = true → state.pending i = true) :
      Step written state
        { mgr := (state.mgr.clearPoolBitmaps store clearPoolBitmap written state.media).2.1
          media := (state.mgr.clearPoolBitmaps store clearPoolBitmap written state.media).2.2
          pending := fun i => state.pending i && !bitmapTest clearPoolBitmap i }
  | clearId (poolId : Nat) {state : PoolState} (free : state.mgr.mutexHeld = false)
      (due : state.pending poolId = true) :
      Step written state
        { mgr := (state.mgr.clearPoolBitmap store poolId written state.media).2.1
          media := (state.mgr.clearPoolBitmap store poolId written state.media).2.2
          pending := Function.update state.pending poolId false }

/-- The states that runs of a new store reach when the outcomes of the writes are
among the allowed ones. -/
inductive Reached (allowed : Bool → Prop) : PoolState → Prop where
  | created (poolTags : Nat → NvmKvPoolTag) (media : PoolMedia) :
      Reached allowed (created store poolTags media)
  | step {written : Bool} {state next : PoolState} (before : Reached allowed state)
      (outcome : allowed written) (taken : Step store written state next) :
      Reached allowed next

end PoolState

end Nvmkv
