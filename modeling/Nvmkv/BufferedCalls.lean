import Nvmkv.BufferPool
import Nvmkv.LiftedPrograms
import Nvmkv.PoolIteration
import Nvmkv.StoreCalls

/-!
# Calls that take buffers

`kv_put`, `kv_get`, `kv_exists`, `kv_get_key_info`, `kv_get_current`, `kv_delete`,
`kv_iteration_end` and `kv_pool_delete` with the buffers that they take from the pool of
the store manager and release to it. What they do on the store is what it is elsewhere;
here it is told at which places a call has a buffer, and the iterators are in a table
that all threads share.

A call uses its buffer at every call on the store that it makes while it works with the
buffer, and once more when it looks at what was read. Two branches have names, since
buffers go wrong there. `kv_exists` looks at the header of a pair that it has found when
the buffer is back in the pool. `kv_get_current` still takes a buffer for its own that it
has released in an earlier round, and releases it again when the iterator is lost.

Nothing limits how often `kv_get_current` goes round in the code, when other threads keep
moving the iterator. A number of rounds is given here, and it may be any.
-/

namespace Nvmkv

/-- The number of iterators (`NVM_KV_MAX_ITERATORS`). -/
def nvmKvMaxIterators : Int := 128

/-- The places where a call goes wrong with its buffer. -/
inductive StoreMgrBranch where
  | existsFound
  | iteratorLost
  deriving DecidableEq

/-- The calls on a store manager with one open store. -/
inductive StoreMgrOp where
  | system (op : SystemOp)
  | getBuf (size : Nat)
  | releaseBuf (buff : Option Nat) (size : Nat)
  | useBuf (buff : Nat) (written : Option Region)
  | iterator (itId : Int)
  | setIterator (itId : Int) (it : PoolIterator)
  | freeIterator (itId : Int)
  | takes (branch : StoreMgrBranch)

/-- The answers. -/
abbrev StoreMgrRes : StoreMgrOp → Type
  | .system op => SystemRes op
  | .getBuf _ => Option Nat × Nat
  | .releaseBuf _ _ => Unit
  | .useBuf _ _ => Region
  | .iterator _ => Option PoolIterator
  | .setIterator _ _ => Unit
  | .freeIterator _ => Unit
  | .takes _ => Unit

/-- A program over a store manager. -/
abbrev StoreMgrM (α : Type) := Program StoreMgrOp StoreMgrRes α

/-- The shared state: the store with its pool manager, the pool of buffers, and the
iterators of the clients. -/
structure StoreMgrState (ι : Type) where
  system : SystemState ι
  pool : BufferPool ι
  iterators : Int → Option PoolIterator

/-- Answer one call of a thread. An iterator that was freed meanwhile does not come back
when it is moved on. -/
def answerStoreMgr {ι : Type} [DecidableEq ι] (store : NvmKvStore) (thread : ι) :
    (op : StoreMgrOp) → StoreMgrState ι → Option (StoreMgrRes op × StoreMgrState ι)
  | .system op, state =>
      (answerSystem store thread op state.system).map fun answered =>
        (answered.1, { state with system := answered.2 })
  | .getBuf size, state =>
      (state.pool.getBuf thread size).map fun taken => (taken.1, { state with pool := taken.2 })
  | .releaseBuf buff size, state =>
      some ((), { state with pool := state.pool.releaseBuf thread buff size })
  | .useBuf buff written, state =>
      let (bytes, pool) := state.pool.useBuf buff written
      some (bytes, { state with pool := pool })
  | .iterator itId, state => some (state.iterators itId, state)
  | .setIterator itId it, state =>
      some ((),
        { state with
          iterators :=
            if (state.iterators itId).isSome then Function.update state.iterators itId (some it)
            else state.iterators })
  | .freeIterator itId, state =>
      some ((), { state with iterators := Function.update state.iterators itId none })
  | .takes _, state => some ((), state)

namespace NvmKvStoreMgr

/-- One call with its answer. -/
def ask (op : StoreMgrOp) : StoreMgrM (StoreMgrRes op) := Program.perform op

/-- A program of the system as one of the manager. -/
def onSystem {α : Type} (program : SystemM α) : StoreMgrM α :=
  program.lift StoreMgrOp.system fun _ answer => answer

/-- A program of the store as one of the manager. -/
def onStore {α : Type} (program : StoreM α) : StoreMgrM α := onSystem (liftStore program)

/-- What a call on the store is given from the buffer: the bytes of the first vector that
is written. -/
def given : StoreOp → Option Region
  | .batchAtomic iovec =>
      (iovec.find? fun vector => vector.iovOpcode = .write).map fun vector => vector.iovBase.bytes
  | _ => none

/-- What a call on the store leaves in the buffer: the first region that is read. -/
def left : (op : StoreOp) → StoreRes op → Option Region
  | .readv _, some regions => regions.head?
  | _, _ => none

/-- A program of the store that works with a buffer of the pool. -/
def usingBuf {α : Type} (buff : Nat) : StoreM α → StoreMgrM α
  | .done result => do
      let _ ← ask (.useBuf buff none)
      pure result
  | .call op next => do
      let _ ← ask (.useBuf buff (given op))
      let answer ← ask (.system (.store op))
      let _ ← ask (.useBuf buff (left op answer))
      usingBuf buff (next answer)

/-- The buffer that was answered, if it may be used: it is there and as large as asked. -/
def usable (size : Nat) (answered : Option Nat × Nat) : Option Nat :=
  if answered.2 < size then none else answered.1

section Lookups

variable (store : NvmKvStore) (poolId : UInt32) (key : List UInt8)

/-- The work of `kv_get` with its buffer. -/
def kvGetWith (value : Memory) (valueLen : Nat) (readExact : Bool) (buf : Region) :
    StoreM (Except NvmErrorCode GetResult) := do
  match ← kvReadMedia store poolId key value valueLen buf readExact with
  | .error code => pure (.error code)
  | .ok read =>
      let hdr := readHeader read.buf
      match ← kvExpire store hdr read.keyHash true with
      | .error code => pure (.error code)
      | .ok () =>
          let value :=
            if hdr.valueOffset < store.sectorSize then
              read.value.copy 0 hdr.valueLen (read.buf.drop hdr.valueOffset)
            else read.value
          pure (.ok
            ⟨if valueLen < hdr.valueLen then valueLen else hdr.valueLen, value,
              keyInfoOf none hdr⟩)

/-- The work of `kv_get_key_info` with its buffer. -/
def kvGetKeyInfoWith (buf : Region) : StoreM (Except NvmErrorCode NvmKvKeyInfo) := do
  match ← kvReadMedia store poolId key (poolBuffer fun _ => 0) 0 buf false with
  | .error code => pure (.error code)
  | .ok read =>
      let hdr := readHeader read.buf
      match ← kvExpire store hdr read.keyHash true with
      | .error code => pure (.error code)
      | .ok () => pure (.ok (keyInfoOf (some poolId) hdr))

/-- Take a buffer of one sector, work with it, and release it. -/
def withBuf {α : Type} (body : Region → StoreM (Except NvmErrorCode α)) :
    StoreMgrM (Except NvmErrorCode α) := do
  let answered ← ask (.getBuf store.sectorSize)
  match usable store.sectorSize answered with
  | none => pure (.error .outOfMemory)
  | some buff =>
      let buf ← ask (.useBuf buff none)
      let result ← usingBuf buff (body buf)
      ask (.releaseBuf (some buff) answered.2)
      pure result

/-- Get a value (`kv_get`). -/
def kvGet (value : Memory) (valueLen : Nat) (readExact : Bool) :
    StoreMgrM (Except NvmErrorCode GetResult) := do
  if !(← onStore (kvValidatePoolId poolId)) || !kvValidateKey key ||
      !kvValidateValue store true valueLen then
    pure (.error .invalidInput)
  else
    withBuf store (kvGetWith store poolId key value valueLen readExact)

/-- Get the information on a key (`kv_get_key_info`). -/
def kvGetKeyInfo : StoreMgrM (Except NvmErrorCode NvmKvKeyInfo) := do
  if !(← onStore (kvValidatePoolId poolId)) || !kvValidateKey key then
    pure (.error .invalidInput)
  else
    withBuf store (kvGetKeyInfoWith store poolId key)

/-- Whether a key exists, with its information (`kv_exists`). The helper releases the
buffer, and the information is taken from the buffer afterwards. -/
def kvExists : StoreMgrM (Except NvmErrorCode (Option NvmKvKeyInfo)) := do
  if !(← onStore (kvValidatePoolId poolId)) || !kvValidateKey key then
    pure (.error .invalidInput)
  else
    let answered ← ask (.getBuf store.sectorSize)
    match usable store.sectorSize answered with
    | none => pure (.error .outOfMemory)
    | some buff =>
        let buf ← ask (.useBuf buff none)
        let found ← usingBuf buff
          (kvRangeExistProbes store poolId key (store.probes poolId key) buf)
        ask (.releaseBuf (some buff) answered.2)
        match found with
        | .error .objectNotFound => pure (.ok none)
        | .error code => pure (.error code)
        | .ok _ =>
            ask (.takes .existsFound)
            let hdr ← ask (.useBuf buff none)
            pure (.ok (some (keyInfoOf (some poolId) (readHeader hdr))))

end Lookups

section Deletes

variable (store : NvmKvStore) (poolId : UInt32) (key : List UInt8) (allocated : Bool)

/-- The end of `kv_delete_sync`: the buffer is released if there is one, and then the
address if it was taken. -/
def endDelete (acquired : Option (Nat × Nat)) (inserted : Option Nat)
    (retCode : Except NvmErrorCode Unit) : StoreMgrM (Except NvmErrorCode Unit) := do
  match acquired with
  | none => pure ()
  | some (buff, size) => ask (.releaseBuf (some buff) size)
  match inserted with
  | none => pure retCode
  | some keyHash =>
      let _ ← onStore (deleteLbaFromSafeList keyHash)
      pure retCode

/-- Trim the pair at an address that was taken. -/
def kvDeleteTrim (acquired : Option (Nat × Nat)) (keyHash : Nat) :
    StoreMgrM (Except NvmErrorCode Unit) := do
  let retCode ← onStore (deleteRange store keyHash store.delSecCount allocated)
  endDelete acquired (some keyHash) retCode

/-- Search again for a key whose address was waited for, and trim the pair found. -/
def kvDeleteAgain (keyHash : Nat) (acquired : Nat × Nat) :
    StoreMgrM (Except NvmErrorCode Unit) := do
  let buf ← ask (.useBuf acquired.1 none)
  match ← usingBuf acquired.1
      (kvReadMedia store poolId key (poolBuffer fun _ => 0) 0 buf false) with
  | .error code => endDelete (some acquired) (some keyHash) (deleteCode code)
  | .ok read => kvDeleteTrim store allocated (some acquired) read.keyHash

/-- Take the address of a key that is to be deleted. After waiting a buffer is taken if
there is none yet. -/
def kvDeleteAt (keyHash : Nat) (acquired : Option (Nat × Nat)) :
    StoreMgrM (Except NvmErrorCode Unit) := do
  let wait ← onStore (insertEntry keyHash)
  if wait then
    match acquired with
    | some acquired => kvDeleteAgain store poolId key allocated keyHash acquired
    | none =>
        let answered ← ask (.getBuf store.sectorSize)
        match usable store.sectorSize answered with
        | none => endDelete none (some keyHash) (.error .outOfMemory)
        | some buff => kvDeleteAgain store poolId key allocated keyHash (buff, answered.2)
  else
    kvDeleteTrim store allocated acquired keyHash

/-- Delete a key by a search on the media. -/
def kvDeleteSearch : StoreMgrM (Except NvmErrorCode Unit) := do
  let answered ← ask (.getBuf store.sectorSize)
  match usable store.sectorSize answered with
  | none => endDelete none none (.error .outOfMemory)
  | some buff =>
      let buf ← ask (.useBuf buff none)
      match ← usingBuf buff
          (kvReadMedia store poolId key (poolBuffer fun _ => 0) 0 buf false) with
      | .error code => endDelete (some (buff, answered.2)) none (deleteCode code)
      | .ok read => kvDeleteAt store poolId key allocated read.keyHash (some (buff, answered.2))

/-- Delete a key, synchronized by the safe list (`kv_delete_sync`). -/
def kvDeleteSync : StoreMgrM (Except NvmErrorCode Unit) := do
  if 0 < store.cacheSize then
    match ← onStore (askCacheDelete key poolId) with
    | some entry => kvDeleteAt store poolId key allocated entry.lba none
    | none => kvDeleteSearch store poolId key allocated
  else
    kvDeleteSearch store poolId key allocated

/-- Delete a key (`kv_delete`). -/
def kvDelete : StoreMgrM (Except NvmErrorCode Unit) := do
  if !(← onStore (kvValidatePoolId poolId)) || !kvValidateKey key then
    pure (.error .invalidInput)
  else
    kvDeleteSync store poolId key allocated

end Deletes

section Puts

variable (store : NvmKvStore) (poolId : UInt32) (pair : NvmKvIovec)
  (iovec : Option (Nat → NvmIovec))

/-- The part of `kv_put` after the cache was asked, with what was answered when a buffer
was asked for. The buffer that was answered is long enough. -/
def kvPutPlace (context : NvmKvCacheContext) (existsInCache : Bool) :
    StoreMgrM (PutBody × Option Nat × Nat) := do
  let layout := writeLayout store.capabilities pair.key.length pair.value pair.valueLen
  if store.capabilities.nvmMaxNumIovs < layout.iovCount then
    pure (⟨.error .invalidInput, 0, existsInCache⟩, none, 0)
  else
    let answered ← ask (.getBuf (layout.bufLen store.capabilities))
    match usable (layout.bufLen store.capabilities) answered with
    | none => pure (⟨.error .outOfMemory, 0, existsInCache⟩, answered)
    | some buff =>
        let buf ← ask (.useBuf buff none)
        let body ← usingBuf buff
          (Nvmkv.kvPutPlace store poolId pair ⟨⟨buf, true⟩, iovec⟩ context existsInCache)
        pure (body, answered)

/-- The body of `kv_put`: validation and the question to the cache. -/
def kvPutBody : StoreMgrM (PutBody × Option Nat × Nat) := do
  if !(← onStore (kvValidatePoolId poolId)) || !kvValidateKey pair.key ||
      !kvValidateValue store false pair.valueLen then
    pure (⟨.error .invalidInput, 0, false⟩, none, 0)
  else if 0 < store.cacheSize then
    let (found, context) ← onStore (askCacheGet pair.key poolId)
    if found then
      if !pair.replace && !context.expired then
        pure (⟨.error .objectExists, 0, false⟩, none, 0)
      else if context.contextState = .cacheEntryFound then
        let wait ← onStore (insertEntry context.contextEntry.lba)
        if wait then
          let _ ← onStore (deleteLbaFromSafeList context.contextEntry.lba)
          kvPutPlace store poolId pair iovec .zero false
        else
          kvPutPlace store poolId pair iovec context true
      else
        kvPutPlace store poolId pair iovec context false
    else
      kvPutPlace store poolId pair iovec context false
  else
    kvPutPlace store poolId pair iovec .zero false

/-- Put a pair (`kv_put`). Whatever has a size is released, and then the address. -/
def kvPut : StoreMgrM (Except NvmErrorCode Nat) := do
  let (body, buf, bufLen) ← kvPutBody store poolId pair iovec
  if bufLen ≠ 0 then
    ask (.releaseBuf buf bufLen)
  if body.insertLba then
    let _ ← onStore (deleteLbaFromSafeList body.keyHashVal)
  pure (body.retCode.map fun _ => pair.valueLen)

end Puts

section Iterators

/-- Whether an iterator is valid: its id is one of an iterator, and its pool is in use
(`validate_iter`). -/
def validateIter (itId : Int) : StoreMgrM Bool := do
  if itId < 0 ∨ nvmKvMaxIterators ≤ itId then
    pure false
  else
    match ← ask (.iterator itId) with
    | none => pure false
    | some it => onSystem it.validateIter

/-- A valid iterator, which the functions of the iterator read again after it was found
to be valid. -/
def lookUpIter (itId : Int) : StoreMgrM (Option PoolIterator) := do
  if ← validateIter itId then ask (.iterator itId) else pure none

/-- The range at the position of an iterator (`get_iter_loc`). -/
def getIterLoc (itId : Int) : StoreMgrM (Except Int NvmBlockRange) := do
  match ← lookUpIter itId with
  | none => pure (.error NvmErrorCode.invalidInput.retCode)
  | some it => pure (.ok it.getIterLoc)

/-- Move an iterator of the table on by one range (`iterate`). -/
def iterate (itId : Int) : StoreMgrM (Except Int PoolIterator) := do
  match ← lookUpIter itId with
  | none => pure (.error NvmErrorCode.invalidInput.retCode)
  | some it =>
      let (moved, it) ← onSystem it.moveOn
      ask (.setIterator itId it)
      pure (moved.map fun _ => it)

variable (store : NvmKvStore) (poolIdBuf : Option Region) (itId : Int)

/-- The loop of `iter_over_pool`. -/
def iterOverPoolLoop : (rounds : Nat) → StoreMgrM (Except Int Unit)
  | 0 => onStore neverReturns
  | rounds + 1 => do
      match ← iterate itId with
      | .error code => pure (.error code)
      | .ok it =>
          let keyLoc := it.getIterLoc.startLba
          if it.poolHash = keyLoc &&& store.poolMask ∨ it.poolId = poolIdAll then
            if store.maxPools ≤ 2 ^ store.poolBits then
              pure (.ok ())
            else
              let foundPoolId ← onSystem (PoolIterator.getPoolid store keyLoc poolIdBuf)
              if foundPoolId < 0 then
                pure (.error foundPoolId)
              else if foundPoolId = asInt it.poolId.toNat then
                pure (.ok ())
              else
                iterOverPoolLoop rounds
          else
            iterOverPoolLoop rounds

/-- Set an iterator to the next range of its pool (`iter_over_pool`). -/
def iterOverPool (rounds : Nat) : StoreMgrM (Except Int Unit) := do
  match ← lookUpIter itId with
  | none => pure (.error NvmErrorCode.invalidInput.retCode)
  | some _ => iterOverPoolLoop store poolIdBuf itId rounds

variable (valueLen : Nat)

/-- What one round of `kv_get_current` finds at a range: the pair there, that there is
none, or an error. -/
inductive RoundEnd where
  | found (pair : CurrentPair)
  | passed
  | failed (code : Int)

/-- Read at a range into a buffer, and look at what is there. -/
def readCurrent (value : Memory) (range : NvmBlockRange) (buf : Region) :
    StoreM (RoundEnd × Memory) := do
  let reading := currentBuffers store value valueLen buf range
  match ← nvmReadv store (readIovec store reading range.startLba) with
  | .error code => pure (.failed code.retCode, value)
  | .ok (retReadLen, regions) =>
      let buf := regions.headD buf
      let value := { value with bytes := regions.getD 1 value.bytes }
      let hdr := readHeader buf
      if retReadLen = 0 ∨ !hdr.isKey then
        pure (.passed, value)
      else
        match ← kvExpire store hdr range.startLba true with
        | .error .objectNotFound => pure (.passed, value)
        | .error code => pure (.failed code.retCode, value)
        | .ok () =>
            let pair := currentPair store valueLen range.startLba buf value.bytes
            pure (.found pair, { value with bytes := pair.value })

/-- The end of `kv_get_current`: what was acquired is released. -/
def endCurrent (acquired : Option (Option Nat × Nat)) (result : Except Int CurrentPair) :
    StoreMgrM (Except Int CurrentPair) := do
  match acquired with
  | none => pure result
  | some (buff, size) =>
      ask (.releaseBuf buff size)
      pure result

/-- The loop of `kv_get_current`. Once a buffer was acquired the loop goes on as if it
still had it. -/
def getCurrentLoop :
    (rounds : Nat) → (acquired : Option (Option Nat × Nat)) → Memory →
      StoreMgrM (Except Int CurrentPair)
  | 0, _, _ => onStore neverReturns
  | rounds + 1, acquired, value => do
      match ← getIterLoc itId with
      | .error code =>
          if acquired.isSome then
            ask (.takes .iteratorLost)
          endCurrent acquired (.error code)
      | .ok range =>
          let answered ← ask (.getBuf store.sectorSize)
          match usable store.sectorSize answered with
          | none =>
              endCurrent (acquired.map fun _ => answered)
                (.error NvmErrorCode.outOfMemory.retCode)
          | some buff =>
              let buf ← ask (.useBuf buff none)
              let (ends, value) ← usingBuf buff (readCurrent store valueLen value range buf)
              match ends with
              | .found pair => endCurrent (some (some buff, answered.2)) (.ok pair)
              | .failed code => endCurrent (some (some buff, answered.2)) (.error code)
              | .passed =>
                  match ← iterOverPool store poolIdBuf itId rounds with
                  | .error code => endCurrent (some (some buff, answered.2)) (.error code)
                  | .ok () =>
                      ask (.releaseBuf (some buff) answered.2)
                      getCurrentLoop rounds (some (some buff, answered.2)) value

/-- Fetch the key and the value at the position of an iterator (`kv_get_current`). -/
def kvGetCurrent (rounds : Nat) (value : Memory) : StoreMgrM (Except Int CurrentPair) :=
  if kvValidateValue store false valueLen then
    getCurrentLoop store poolIdBuf itId valueLen rounds none value
  else
    pure (.error NvmErrorCode.invalidInput.retCode)

/-- End an iteration (`kv_iteration_end`). -/
def kvIterationEnd : StoreMgrM (Except Int Unit) := do
  if ← validateIter itId then
    ask (.freeIterator itId)
    pure (.ok ())
  else
    pure (.error NvmErrorCode.invalidInput.retCode)

end Iterators

section Pools

variable (store : NvmKvStore) (poolId : UInt32)

/-- Mark a pool or all pools for deletion (`delete_pool`), and empty their entries of the
cache. -/
def deletePool : SystemM (Except NvmErrorCode Unit) := do
  let status ← liftStore (checkPoolStatus poolId)
  if poolId ≠ poolIdAll ∧ (status = .poolIsInvalid ∨ status = .poolNotInUse) then
    pure (.error .invalidInput)
  else if poolId ≠ poolIdAll ∧ status = .poolDeletionInProgress then
    pure (.ok ())
  else
    match ← askSystem (.deletePoolLocked poolId) with
    | .error code => pure (.error code)
    | .ok () =>
        if 0 < store.cacheSize then
          askSystem (.cacheDeletePools poolId)
        pure (.ok ())

/-- Delete a pool or all pools (`kv_pool_delete`). -/
def kvPoolDelete : SystemM (Except NvmErrorCode Unit) := do
  if poolId = defaultPoolId then
    pure (.error .invalidInput)
  else if !(← liftStore (kvValidatePoolId poolId)) then
    pure (.error .invalidInput)
  else
    deletePool store poolId

end Pools

end NvmKvStoreMgr

/-- A call with its arguments and the memory it gets. What the threads of the store
itself do, and the other calls of clients, is a call that takes no buffer. -/
inductive StoreMgrCall where
  | kvPut (poolId : UInt32) (pair : NvmKvIovec) (iovec : Option (Nat → NvmIovec))
  | kvGet (poolId : UInt32) (key : List UInt8) (value : Memory) (valueLen : Nat)
      (readExact : Bool)
  | kvExists (poolId : UInt32) (key : List UInt8)
  | kvGetKeyInfo (poolId : UInt32) (key : List UInt8)
  | kvGetCurrent (poolIdBuf : Option Region) (itId : Int) (valueLen rounds : Nat)
      (value : Memory)
  | kvDelete (poolId : UInt32) (key : List UInt8) (allocated : Bool)
  | kvIterationEnd (itId : Int)
  | kvPoolDelete (poolId : UInt32)
  | other (program : SystemM Unit)

/-- The program of a call, with its result dropped. -/
def StoreMgrCall.program (store : NvmKvStore) : StoreMgrCall → StoreMgrM Unit
  | .kvPut poolId pair iovec => do
      let _ ← NvmKvStoreMgr.kvPut store poolId pair iovec
      pure ()
  | .kvGet poolId key value valueLen readExact => do
      let _ ← NvmKvStoreMgr.kvGet store poolId key value valueLen readExact
      pure ()
  | .kvExists poolId key => do
      let _ ← NvmKvStoreMgr.kvExists store poolId key
      pure ()
  | .kvGetKeyInfo poolId key => do
      let _ ← NvmKvStoreMgr.kvGetKeyInfo store poolId key
      pure ()
  | .kvGetCurrent poolIdBuf itId valueLen rounds value => do
      let _ ← NvmKvStoreMgr.kvGetCurrent store poolIdBuf itId valueLen rounds value
      pure ()
  | .kvDelete poolId key allocated => do
      let _ ← NvmKvStoreMgr.kvDelete store poolId key allocated
      pure ()
  | .kvIterationEnd itId => do
      let _ ← NvmKvStoreMgr.kvIterationEnd itId
      pure ()
  | .kvPoolDelete poolId => do
      let _ ← NvmKvStoreMgr.onSystem (NvmKvStoreMgr.kvPoolDelete store poolId)
      pure ()
  | .other program => NvmKvStoreMgr.onSystem program

/-- A configuration of calls over a store manager. -/
abbrev StoreMgrConfig (ι : Type) := Config StoreMgrOp StoreMgrRes Unit (StoreMgrState ι) ι

/-- All calls are about to start. -/
def startStoreMgr {ι : Type} (store : NvmKvStore) (state : StoreMgrState ι)
    (calls : ι → StoreMgrCall) : StoreMgrConfig ι :=
  ⟨state, fun thread => (calls thread).program store⟩

end Nvmkv
