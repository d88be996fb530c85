import Nvmkv.Cache
import Nvmkv.Header
import Nvmkv.Interleaving
import Nvmkv.Layout

/-!
# The shared state of an open store

What the threads of one process share when they work on a store: the device,
the safe list of addresses, the collision cache, the pool bitmaps, the queue of
expired pairs and the clock. Every access that the code makes in one critical
section, or by one primitive of the device, is one call of `StoreOp`; the
operations of the store are programs over these calls.

Waiting for an address on the safe list is a call of its own. It is answered
once the address is free and inserts the address in the same step, as the code
does under its mutex. The list remembers which thread inserted an address and
the log records the atomic batches; both are kept for the statements and no
program reads them.
-/

namespace Nvmkv

/-- What `check_pool_status` tells of a pool. -/
inductive PoolStatus where
  | poolNotInUse
  | poolInUse
  | poolDeletionInProgress
  | poolIsInvalid
  deriving DecidableEq

/-- The calls on the shared state. -/
inductive StoreOp where
  | rangeExists (search : NvmBlockRange)
  | readv (iovec : List NvmIovec)
  | batchAtomic (iovec : List NvmIovec)
  | checkEntry (lba : Nat)
  | awaitEntry (lba : Nat)
  | deleteEntry (lba : Nat)
  | time
  | checkPoolStatus (poolId : UInt32)
  | cacheGet (key : List UInt8) (poolId : UInt32)
  | cachePut (key : List UInt8) (poolId : UInt32) (valueLen absExpiry genCount lba : Nat)
      (context : NvmKvCacheContext)
  | cachePuts (puts : List NvmKvCachePut)
  | cacheDelete (key : List UInt8) (poolId : UInt32)
  | cacheDeleteLbas (lbaList : List Nat)
  | updateExpiryQueue (keyLoc : Nat) (hdr : NvmKvHeader)
  | never

/-- The answers. A primitive of the device answers nothing when it fails; a
checked entry answers whether it was free and is now inserted. -/
abbrev StoreRes : StoreOp → Type
  | .rangeExists _ => Option NvmBlockRange
  | .readv _ => Option (List Region)
  | .batchAtomic _ => Bool
  | .checkEntry _ => Bool
  | .awaitEntry _ => Unit
  | .deleteEntry _ => Bool
  | .time => Nat
  | .checkPoolStatus _ => PoolStatus
  | .cacheGet _ _ => Bool × NvmKvCacheContext
  | .cachePut _ _ _ _ _ _ _ => Unit
  | .cachePuts _ => Unit
  | .cacheDelete _ _ => Option NvmKvCacheEntry
  | .cacheDeleteLbas _ => Unit
  | .updateExpiryQueue _ _ => Except NvmErrorCode Unit
  | .never => Empty

/-- A program over a store. -/
abbrev StoreM (α : Type) := Program StoreOp StoreRes α

/-- The shared state, used by threads named by `ι`. -/
structure StoreState (ι : Type) where
  media : Media
  safeLbaList : Nat → Option ι
  cache : NvmKvCacheTable
  inUse : Nat → Bool
  deleted : Nat → Bool
  expiryQueue : List (List NvmIovec)
  clock : Nat
  log : List (ι × List NvmIovec)

/-- Whether a pool may be used (`check_pool_status`). A negative id is a number
from `2 ^ 31` on. -/
def poolStatus (inUse deleted : Nat → Bool) (poolId : UInt32) : PoolStatus :=
  let id := poolId.toNat
  if 2 ^ 31 ≤ id ∨ nvmKvMaxPools ≤ id then
    .poolIsInvalid
  else
    let isPoolInDel := inUse id && deleted id
    let isValidPoolId := id = 0 || inUse id
    if isValidPoolId && !isPoolInDel then
      .poolInUse
    else if isPoolInDel then
      .poolDeletionInProgress
    else
      .poolNotInUse

/-- The vector that trims an expired pair. The two fields of the header are added in 32 bits. -/
def expiryIovec (sectorSize keyLoc : Nat) (hdr : NvmKvHeader) : NvmIovec :=
  let trimLen := (hdr.valueOffset + hdr.valueLen) % 2 ^ 32
  { iovBase := poolBuffer fun _ => 0
    iovLen := if trimLen ≤ sectorSize then sectorSize else nvmKvRoundUptoBlk trimLen sectorSize
    iovLba := keyLoc
    iovOpcode := .trim }

/-- Add an address to the last block of the expiry queue, or to a new block when
that one is full, unless the block has it already. Memory for a new block is always
found: without it the code leaves the queue as it is and returns an error. -/
def updateExpiryQueue (capabilities : NvmKvStoreCapabilities) (queue : List (List NvmIovec))
    (keyLoc : Nat) (hdr : NvmKvHeader) : List (List NvmIovec) :=
  let (full, block) :=
    match queue.getLast? with
    | none => (queue, [])
    | some last =>
        if last.length = capabilities.nvmMaxNumIovs then (queue, []) else (queue.dropLast, last)
  if block.any fun vector => vector.iovLba = keyLoc then
    full ++ [block]
  else
    full ++ [block ++ [expiryIovec capabilities.nvmSectorSize keyLoc hdr]]

variable {ι : Type}

/-- Answer one call of a thread. The primitives do not fail here. -/
def answer (store : NvmKvStore) (thread : ι) :
    (op : StoreOp) → StoreState ι → Option (StoreRes op × StoreState ι)
  | .rangeExists search, state => some (some (state.media.rangeExists search), state)
  | .readv iovec, state => some (some (state.media.readBuffers store.sectorSize iovec), state)
  | .batchAtomic iovec, state =>
      some (true,
        { state with
          media := state.media.applyBatch store.sectorSize iovec
          log := state.log ++ [(thread, iovec)] })
  | .checkEntry lba, state =>
      if (state.safeLbaList lba).isNone then
        some (true,
          { state with safeLbaList := Function.update state.safeLbaList lba (some thread) })
      else
        some (false, state)
  | .awaitEntry lba, state =>
      if (state.safeLbaList lba).isNone then
        some ((),
          { state with safeLbaList := Function.update state.safeLbaList lba (some thread) })
      else
        none
  | .deleteEntry lba, state =>
      some ((state.safeLbaList lba).isSome,
        { state with safeLbaList := Function.update state.safeLbaList lba none })
  | .time, state => some (state.clock, state)
  | .checkPoolStatus poolId, state => some (poolStatus state.inUse state.deleted poolId, state)
  | .cacheGet key poolId, state =>
      some (kvCacheGet (cacheAddrBits store.cacheSize) state.cache key poolId
        (store.expiryMode ≠ .disableExpiry) state.clock, state)
  | .cachePut key poolId valueLen absExpiry genCount lba context, state =>
      some ((),
        { state with
          cache := kvCachePut (cacheAddrBits store.cacheSize) state.cache key poolId valueLen
            absExpiry genCount lba state.clock context })
  | .cacheDelete key poolId, state =>
      let (entry, table) :=
        kvCacheDelete (cacheAddrBits store.cacheSize) state.cache key poolId
      some (entry, { state with cache := table })
  | .cachePuts puts, state =>
      some ((),
        { state with
          cache := kvCachePuts (cacheAddrBits store.cacheSize) state.cache state.clock puts })
  | .cacheDeleteLbas lbaList, state =>
      some ((),
        { state with
          cache := kvCacheDeleteLbas (2 ^ cacheAddrBits store.cacheSize) state.cache lbaList })
  | .updateExpiryQueue keyLoc hdr, state =>
      some (.ok (),
        { state with
          expiryQueue := updateExpiryQueue store.capabilities state.expiryQueue keyLoc hdr })
  | .never, _ => none

/-- The store's state when `store` was opened on a device: nothing is cached,
queued or locked. -/
def StoreState.opened (media : Media) (inUse : Nat → Bool) (clock : Nat) : StoreState ι where
  media := media
  safeLbaList := fun _ => none
  cache := .initial
  inUse := inUse
  deleted := fun _ => false
  expiryQueue := []
  clock := clock
  log := []

/-- A query on an empty device finds nothing. -/
theorem answer_rangeExists_opened {store : NvmKvStore} {thread : ι} {inUse : Nat → Bool}
    {clock : Nat} (search : NvmBlockRange) :
    answer store thread (.rangeExists search) (.opened (fun _ => none) inUse clock) =
      some (some ⟨search.startLba, 0⟩, .opened (fun _ => none) inUse clock) :=
  congrArg (fun found => some (some found, _)) (Media.rangeExists_blank search)

/-- One call with its answer. -/
def ask (op : StoreOp) : StoreM (StoreRes op) := Program.perform op

/-- The first mapped run of a range (`nvm_range_exists`), or a failure. -/
def nvmRangeExists (search : NvmBlockRange) : StoreM (Option NvmBlockRange) :=
  ask (.rangeExists search)

/-- The sectors of the vectors, or a failure of the device. -/
def preadv (iovec : List NvmIovec) : StoreM (Option (List Region)) := ask (.readv iovec)

/-- Hand a batch over to the device, and whether it took it. -/
def nvmBatchAtomicOperations (iovec : List NvmIovec) : StoreM Bool := ask (.batchAtomic iovec)

/-- Put an address on the safe list unless it is there already. -/
def checkEntry (lba : Nat) : StoreM Bool := ask (.checkEntry lba)

/-- Wait until an address is off the safe list, and put it there. -/
def awaitEntry (lba : Nat) : StoreM Unit := ask (.awaitEntry lba)

/-- Take an address off the safe list, and whether it was there. -/
def deleteLbaFromSafeList (lba : Nat) : StoreM Bool := ask (.deleteEntry lba)

/-- The seconds since the epoch. -/
def currentTime : StoreM Nat := ask .time

/-- The status of a pool as the pool manager has it now. -/
def checkPoolStatus (poolId : UInt32) : StoreM PoolStatus := ask (.checkPoolStatus poolId)

/-- Look a key up in the cache. -/
def askCacheGet (key : List UInt8) (poolId : UInt32) : StoreM (Bool × NvmKvCacheContext) :=
  ask (.cacheGet key poolId)

/-- Remember what a put has written. -/
def askCachePut (key : List UInt8) (poolId : UInt32) (valueLen absExpiry genCount lba : Nat)
    (context : NvmKvCacheContext) : StoreM Unit :=
  ask (.cachePut key poolId valueLen absExpiry genCount lba context)

/-- Forget a key, and what was remembered of it. -/
def askCacheDelete (key : List UInt8) (poolId : UInt32) : StoreM (Option NvmKvCacheEntry) :=
  ask (.cacheDelete key poolId)

/-- Remember what a batch has written, one pair after the other. -/
def askCachePuts (puts : List NvmKvCachePut) : StoreM Unit := ask (.cachePuts puts)

/-- Forget everything that is remembered at some addresses. -/
def askCacheDeleteLbas (lbaList : List Nat) : StoreM Unit := ask (.cacheDeleteLbas lbaList)

/-- Queue the address of an expired pair. -/
def askUpdateExpiryQueue (keyLoc : Nat) (hdr : NvmKvHeader) : StoreM (Except NvmErrorCode Unit) :=
  ask (.updateExpiryQueue keyLoc hdr)

/-- Never answered: the code does not leave the loop it is in. -/
def neverReturns {α : Type} : StoreM α := do
  let absurd ← ask .never
  nomatch absurd

/-- Insert an address into the safe list, waiting while it is in the list. The
result tells whether the caller waited; `insert_entry` itself always succeeds,
so the branches for its failure are left out of its callers. -/
def insertEntry (lba : Nat) : StoreM Bool := do
  if ← checkEntry lba then
    pure false
  else
    awaitEntry lba
    pure true

/-- The vectored read of a store: a list of at most `nvmMaxNumIovs` aligned
buffers (`nvm_readv`). Returns the bytes read and the buffers after the read. A read
that succeeds reads all that is asked for. -/
def nvmReadv (store : NvmKvStore) (iovec : List NvmIovec) :
    StoreM (Except NvmErrorCode (Nat × List Region)) := do
  if store.capabilities.nvmMaxNumIovs < iovec.length then
    pure (.error .invalidInput)
  else if iovec.any fun vector => vector.iovBase.address % store.sectorSize ≠ 0 then
    pure (.error .memoryNotAligned)
  else
    match ← preadv iovec with
    | none => pure (.error .io)
    | some buffers => pure (.ok ((iovec.map (·.iovLen)).sum, buffers))

/-- An atomic write of a store (`nvm_writev` with atomic operations). -/
def nvmWritev (iovec : List NvmIovec) : StoreM (Except NvmErrorCode Unit) := do
  if ← nvmBatchAtomicOperations iovec then pure (.ok ()) else pure (.error .io)

/-- The range query of a store (`kv_range_exists`). -/
def kvRangeExists (search : NvmBlockRange) : StoreM (Except NvmErrorCode NvmBlockRange) := do
  match ← nvmRangeExists search with
  | none => pure (.error .internalFailure)
  | some found => pure (if found.length = 0 then .error .objectNotFound else .ok found)

/-- Whether the pair that a header describes has expired. On the reading paths an
expired pair is queued for deletion at its address (`kv_expire`). -/
def kvExpire (store : NvmKvStore) (hdr : NvmKvHeader) (keyLoc : Nat) (delExp : Bool) :
    StoreM (Except NvmErrorCode Unit) := do
  if store.expiryMode = .disableExpiry then
    pure (.ok ())
  else
    let curTime ← currentTime
    if hdr.expiry < curTime % 2 ^ 32 ∧ hdr.expiry ≠ 0 then
      if !delExp then
        pure (.error .objectNotFound)
      else
        match ← askUpdateExpiryQueue keyLoc hdr with
        | .error code => pure (.error code)
        | .ok () => pure (.error .objectNotFound)
    else
      pure (.ok ())

/-- Validation of a pool id: in use, or the id that stands for all pools. -/
def kvValidatePoolId (poolId : UInt32) : StoreM Bool := do
  let status ← checkPoolStatus poolId
  pure (status = .poolInUse ∨ poolId = 0xFFFFFFFF)

/-- Validation of a key. -/
def kvValidateKey (key : List UInt8) : Bool := 0 < key.length ∧ key.length ≤ nvmKvMaxKeySize

/-- Validation of a value length; a buffer to read into has whole sectors. -/
def kvValidateValue (store : NvmKvStore) (isGet : Bool) (valueLen : Nat) : Bool :=
  0 < valueLen ∧ valueLen ≤ nvmKvMaxValueSize ∧
    (isGet = true → valueLen % store.sectorSize = 0)

end Nvmkv
