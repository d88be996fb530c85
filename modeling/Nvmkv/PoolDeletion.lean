import Nvmkv.LogicalRanges
import Nvmkv.Placement
import Nvmkv.PoolManager

/-!
# The pool deletion thread

`kv_pool_del_manager.cpp`: a thread copies the deletion bits, goes over the mapped
ranges of the data area for each pool to delete, or once for all pools, trims the
ranges of the pools in batches, and clears the pools that are gone. When pool ids
are hashed into addresses, the header of a range tells which pool it belongs to;
otherwise the low bits of its address do.

The machine is that of the store together with the device's range iterator and
the pool manager, whose critical sections are one call each. Return codes that
are not errors are numbers: the code keeps counts, verdicts and success in one
variable, and the caller takes zero for success only.
-/

namespace Nvmkv

/-- The calls on a store and its pool manager. -/
inductive SystemOp where
  | store (op : StoreOp)
  | logicalRangeIterator (search : NvmBlockRange) (maxRanges filterMask filterPattern : Nat)
  | createPool (poolTag : Option NvmKvPoolTag)
  | deletePoolLocked (poolId : UInt32)
  | cacheDeletePools (poolId : UInt32)
  | getPoolDeletionBitmap
  | clearPoolBitmaps (clearPoolBitmap : KvBitmap)
  | clearPoolBitmap (poolId : Nat)

/-- The answers. -/
abbrev SystemRes : SystemOp → Type
  | .store op => StoreRes op
  | .logicalRangeIterator _ _ _ _ => Option (List NvmBlockRange × NvmBlockRange)
  | .createPool _ => Except NvmErrorCode Nat
  | .deletePoolLocked _ => Except NvmErrorCode Unit
  | .cacheDeletePools _ => Unit
  | .getPoolDeletionBitmap => KvBitmap × Bool
  | .clearPoolBitmaps _ => Except NvmErrorCode Unit
  | .clearPoolBitmap _ => Except NvmErrorCode Unit

/-- A program over a store and its pool manager. -/
abbrev SystemM (α : Type) := Program SystemOp SystemRes α

/-- The shared state of a store with its pool manager. The pool bits that the store
reads are those of the manager. -/
structure SystemState (ι : Type) where
  store : StoreState ι
  mgr : NvmKvPoolMgr
  poolMedia : PoolMedia

variable {ι : Type}

/-- The state after the manager has changed. -/
def SystemState.managed (state : SystemState ι) (mgr : NvmKvPoolMgr) (poolMedia : PoolMedia) :
    SystemState ι where
  store :=
    { state.store with inUse := bitmapTest mgr.inUse, deleted := bitmapTest mgr.deleted }
  mgr := mgr
  poolMedia := poolMedia

/-- Empty the cache entries of a pool, or of all pools but the default one
(`kv_cache_delete_pools`, `kv_cache_delete_all_pools`). -/
def kvCacheDeletePools (totalEntries : Nat) (table : NvmKvCacheTable) (poolId : UInt32) :
    NvmKvCacheTable := fun slot =>
  let entry := table slot
  let listed := if poolId = poolIdAll then entry.poolId ≠ defaultPoolId else entry.poolId = poolId
  if slot < totalEntries ∧ entry.key ≠ [] ∧ listed then
    { NvmKvCacheEntry.zero with index := slot }
  else entry

/-- Answer one call of a thread. The primitives do not fail here, and a call on the
manager waits while its mutex is held. -/
def answerSystem (store : NvmKvStore) (thread : ι) :
    (op : SystemOp) → SystemState ι → Option (SystemRes op × SystemState ι)
  | .store op, state =>
      (answer store thread op state.store).map fun answered =>
        (answered.1, { state with store := answered.2 })
  | .logicalRangeIterator search maxRanges filterMask filterPattern, state =>
      some (some (state.store.media.logicalRangeIterator search maxRanges filterMask
        filterPattern), state)
  | .createPool poolTag, state =>
      if state.mgr.mutexHeld then none
      else
        let (poolId, mgr, media) := state.mgr.createPool store poolTag true state.poolMedia
        some (poolId, state.managed mgr media)
  | .deletePoolLocked poolId, state =>
      if state.mgr.mutexHeld then none
      else
        let (retval, mgr, media) := state.mgr.deletePoolLocked store poolId true state.poolMedia
        some (retval, state.managed mgr media)
  | .cacheDeletePools poolId, state =>
      some ((),
        { state with
          store :=
            { state.store with
              cache := kvCacheDeletePools (2 ^ cacheAddrBits store.cacheSize)
                state.store.cache poolId } })
  | .getPoolDeletionBitmap, state =>
      if state.mgr.mutexHeld then none
      else some (state.mgr.getPoolDeletionBitmap store, state)
  | .clearPoolBitmaps clearPoolBitmap, state =>
      if state.mgr.mutexHeld then none
      else
        let (retCode, mgr, media) :=
          state.mgr.clearPoolBitmaps store clearPoolBitmap true state.poolMedia
        some (retCode, state.managed mgr media)
  | .clearPoolBitmap poolId, state =>
      if state.mgr.mutexHeld then none
      else
        let (retCode, mgr, media) := state.mgr.clearPoolBitmap store poolId true state.poolMedia
        some (retCode, state.managed mgr media)

/-- One call with its answer. -/
def askSystem (op : SystemOp) : SystemM (SystemRes op) := Program.perform op

/-- A program of the store as one of the system. -/
def liftStore {α : Type} : StoreM α → SystemM α
  | .done result => .done result
  | .call op next => .call (.store op) fun answered => liftStore (next answered)

/-- The next mapped ranges of a range that pass a filter, and what remains of it. -/
def nvmLogicalRanges (search : NvmBlockRange) (maxRanges filterMask filterPattern : Nat) :
    SystemM (Option (List NvmBlockRange × NvmBlockRange)) :=
  askSystem (.logicalRangeIterator search maxRanges filterMask filterPattern)

/-- Clear the pools of a copy (`clear_pool_bitmaps`). -/
def clearPoolBitmaps (clearPoolBitmap : KvBitmap) : SystemM (Except NvmErrorCode Unit) :=
  askSystem (.clearPoolBitmaps clearPoolBitmap)

/-- Clear a single pool. -/
def clearPoolBitmapOf (poolId : Nat) : SystemM (Except NvmErrorCode Unit) :=
  askSystem (.clearPoolBitmap poolId)

/-- Copy the deletion bits, and whether all pools are to be deleted. -/
def getPoolDeletionBitmap : SystemM (KvBitmap × Bool) := askSystem .getPoolDeletionBitmap

/-- How many ranges the device's iterator returns at a time. -/
structure LogicalIterRanges where
  nvmMaxNumLogicalIterRanges : Nat
  positive : 0 < nvmMaxNumLogicalIterRanges

/-- Whether a header is that of a key. -/
def NvmKvHeader.isKey (hdr : NvmKvHeader) : Bool := hdr.keyLen ≠ 0 ∧ hdr.keyLen ≤ nvmKvMaxKeySize

/-- Whether the expiry of a header has passed. -/
def NvmKvHeader.expiredAt (hdr : NvmKvHeader) (curtime : Nat) : Bool :=
  hdr.expiry ≠ 0 ∧ hdr.expiry < curtime % 2 ^ 32

/-- Read the header of a range (`is_valid_for_del`): one when its pair has expired
and else zero, and the pool id, which is left as it was when the sector does not
start with a header. -/
def isValidForDelIn (store : NvmKvStore) (keyLoc poolId : Nat) :
    SystemM (Except NvmErrorCode (Nat × Nat)) := do
  let read ← liftStore (nvmReadv store
    [⟨poolBuffer fun _ => 0, store.sectorSize, keyLoc, .write⟩])
  match read with
  | .error code => pure (.error code)
  | .ok (_, buffers) =>
      let hdr := readHeader (buffers.headD fun _ => 0)
      if !hdr.isKey then
        pure (.ok (0, poolId))
      else
        let curtime ← liftStore currentTime
        pure (.ok (if hdr.expiredAt curtime then 1 else 0, hdr.poolId))

/-- The variables of a scan that outlive one range. -/
structure ScanState where
  retCode : Nat
  foundPoolId : Nat
  iovec : List NvmIovec

/-- The vector that trims a range of a pool. -/
def poolRangeIovec (store : NvmKvStore) (range : NvmBlockRange) : NvmIovec where
  iovBase := poolBuffer fun _ => 0
  iovLen := range.length * store.sectorSize
  iovLba := range.startLba
  iovOpcode := .trim

namespace NvmKvStore

variable (store : NvmKvStore)

/-- The low bits of an address that are the pool's. -/
def poolMask : Nat := 2 ^ store.poolBits - 1

/-- The user data area. -/
def usrData : NvmBlockRange := ⟨store.dataStartLba, store.kvLen - store.dataStartLba⟩

/-- Whether headers are read to tell the pool of a range (`m_validate_pool_id_on_media`). -/
def validatesPoolIdOnMedia : Bool := 2 ^ store.poolBits < store.maxPools

/-- Whether a range of a pool is to be skipped. No pool id stands for all pools
but the default one. -/
def skipsPool (poolId : Option Nat) (foundPoolId : Nat) : Bool :=
  match poolId with
  | some id => id ≠ foundPoolId
  | none => foundPoolId = defaultPoolId.toNat

end NvmKvStore

/-- Whether a range is to be skipped, with the variables after the check. -/
def skipRange (store : NvmKvStore) (poolId : Option Nat) (range : NvmBlockRange)
    (state : ScanState) : SystemM (Except NvmErrorCode (Bool × ScanState)) :=
  if store.validatesPoolIdOnMedia then do
    match ← isValidForDelIn store range.startLba state.foundPoolId with
    | .error code => pure (.error code)
    | .ok (retCode, foundPoolId) =>
        pure (.ok (NvmKvStore.skipsPool poolId foundPoolId,
          { state with retCode := retCode, foundPoolId := foundPoolId }))
  else
    pure (.ok (poolId = none ∧ range.startLba &&& store.poolMask = defaultPoolId.toNat, state))

/-- The inner loop of `delete_pool` over the ranges of one portion. -/
def deletePortion (store : NvmKvStore) (poolId : Option Nat) :
    List NvmBlockRange → ScanState → SystemM (Except NvmErrorCode ScanState)
  | [], state => pure (.ok state)
  | range :: rest, state => do
      match ← skipRange store poolId range state with
      | .error code => pure (.error code)
      | .ok (true, state) => deletePortion store poolId rest state
      | .ok (false, state) =>
          if store.capabilities.maxTrimSize < range.length * store.sectorSize then
            pure (.error .internalFailure)
          else
            let iovec := state.iovec ++ [poolRangeIovec store range]
            if iovec.length = store.capabilities.nvmMaxNumIovs then
              match ← liftStore (nvmWritev iovec) with
              | .error code => pure (.error code)
              | .ok () => deletePortion store poolId rest { state with retCode := 0, iovec := [] }
            else
              deletePortion store poolId rest { state with iovec := iovec }

/-- The outer loop of `delete_pool`: one portion of ranges in each round. A portion
that is not full is the last one. Every full portion takes a sector at least off
what is left to iterate over, which bounds the rounds. -/
def deletePoolLoop (store : NvmKvStore) (iter : LogicalIterRanges) (poolId : Option Nat)
    (filterMask filterPattern : Nat) :
    (fuel : Nat) → NvmBlockRange → ScanState → SystemM (Except NvmErrorCode Nat)
  | 0, _, _ => liftStore neverReturns
  | fuel + 1, search, state => do
      match ← nvmLogicalRanges search iter.nvmMaxNumLogicalIterRanges filterMask filterPattern with
      | none => pure (.error .internalFailure)
      | some (found, left) =>
          match ← deletePortion store poolId found { state with retCode := found.length } with
          | .error code => pure (.error code)
          | .ok state =>
              if found.length < iter.nvmMaxNumLogicalIterRanges then
                if state.iovec.length ≠ 0 then
                  match ← liftStore (nvmWritev state.iovec) with
                  | .error code => pure (.error code)
                  | .ok () => pure (.ok 0)
                else
                  pure (.ok state.retCode)
              else
                deletePoolLoop store iter poolId filterMask filterPattern fuel left state

/-- Delete all pairs of a pool, or of all pools but the default one, from the media
(`delete_pool` of the deletion manager). The pool id found has no value at first. -/
def deletePool (store : NvmKvStore) (iter : LogicalIterRanges) (poolId : Option Nat)
    (memory : Nat) : SystemM (Except NvmErrorCode Nat) :=
  let filterMask := if poolId = none then 0 else store.poolMask
  let filterPattern :=
    match poolId with
    | some id => store.poolIdHash (UInt32.ofNat id)
    | none => 0
  deletePoolLoop store iter poolId filterMask filterPattern (store.usrData.length + 1)
    store.usrData ⟨0, memory, []⟩

/-- The pools of the snapshot one after the other. -/
def deletePools (store : NvmKvStore) (iter : LogicalIterRanges) (poolsToDelete : KvBitmap)
    (memory : Nat) : List Nat → SystemM (Except NvmErrorCode Nat)
  | [] => pure (.ok 0)
  | i :: rest => do
      if bitmapTest poolsToDelete i then
        match ← deletePool store iter (some i) memory with
        | .error code => pure (.error code)
        | .ok 0 =>
            match ← clearPoolBitmapOf i with
            | .error code => pure (.error code)
            | .ok () => deletePools store iter poolsToDelete memory rest
        | .ok retCode => pure (.ok retCode)
      else
        deletePools store iter poolsToDelete memory rest

/-- Delete the pools of a snapshot (`start_pool_delete`). -/
def startPoolDelete (store : NvmKvStore) (iter : LogicalIterRanges) (poolsToDelete : KvBitmap)
    (deleteAllPools : Bool) (memory : Nat) : SystemM (Except NvmErrorCode Nat) := do
  if deleteAllPools then
    match ← deletePool store iter none memory with
    | .error code => pure (.error code)
    | .ok 0 =>
        match ← clearPoolBitmaps poolsToDelete with
        | .error code => pure (.error code)
        | .ok () => pure (.ok 0)
    | .ok retCode => pure (.ok retCode)
  else
    deletePools store iter poolsToDelete memory (List.range' 1 (store.maxPools - 1))

end Nvmkv
