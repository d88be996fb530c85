import Mathlib.Data.List.Nodup
import Nvmkv.ExpiryPass
import Nvmkv.LookupsAgree
import Nvmkv.PoolDeletionScan

/-!
# Iterating over a pool

`kv_begin`, `kv_next` and `kv_get_current` with the functions of the iterator that
they share. The device hands out mapped ranges whose addresses have the low bits of the
pool, in portions; when several pools share their low bits, the header at the start of
a range tells its pool. `kv_get_current` passes over ranges that do not start with a
header and over expired pairs by moving the iterator on.

A pool id that is read from a header is an `int` in the code, and one that is negative
is returned as if it were an error. Return codes are therefore integers here.

The machine is that of the store with the range iterator of the device. The client's
loop begins an iteration and then takes the current pair and moves on, in turns, until
one of the calls fails.
-/

namespace Nvmkv

/-- The return code of an error. -/
def NvmErrorCode.retCode : NvmErrorCode → Int
  | .outOfMemory => -6
  | .internalFailure => -11
  | .objectExists => -26
  | .io => -35
  | .invalidInput => -36
  | .objectNotFound => -85
  | .memoryNotAligned => -86

/-- A 32-bit number as an `int`. -/
def asInt (bits : Nat) : Int := (BitVec.ofNat 32 bits).toInt

/-- The iterator of a client (`kv_batch_iterator_t` with its `pool_id`). -/
structure PoolIterator extends KvBatchIterator where
  poolId : UInt32

namespace PoolIterator

variable (store : NvmKvStore)

/-- A new iterator over a pool (`alloc_iter`). Memory is not initialised. -/
def allocIter (memory : KvBatchIterator) (poolId : UInt32) (poolHash : Nat) : PoolIterator where
  toKvBatchIterator := { memory with poolHash := poolHash, pos := 0, numRangesFound := 0 }
  poolId := poolId

/-- An iterator is valid while its pool is in use (`validate_iter`). -/
def validateIter (it : PoolIterator) : SystemM Bool := do
  let status ← liftStore (checkPoolStatus it.poolId)
  pure (status = .poolInUse ∨ it.poolId = poolIdAll)

/-- Move on by one range, or fetch the next ranges. At the end of the data the number of
ranges found stays what it was. -/
def moveOn (it : PoolIterator) : SystemM (Except Int Unit × PoolIterator) := do
  if it.pos + 1 < it.numRangesFound then
    pure (.ok (), { it with pos := it.pos + 1 })
  else
    let it := { it with filters := { it.filters with filterExpiry := 0 }, pos := 0 }
    match ← nvmLogicalRanges it.rangeToIterate it.maxRanges it.filters.filterMask
        it.filters.filterPattern with
    | none => pure (.error NvmErrorCode.internalFailure.retCode, it)
    | some (found, left) =>
        let it := { it with rangeToIterate := left, ranges := it.fetched found }
        if found.length = 0 then
          pure (.error NvmErrorCode.objectNotFound.retCode, it)
        else
          pure (.ok (), { it with numRangesFound := found.length })

/-- Move on an iterator that is valid (`iterate`). -/
def iterate (it : PoolIterator) : SystemM (Except Int Unit × PoolIterator) := do
  if !(← it.validateIter) then
    pure (.error NvmErrorCode.invalidInput.retCode, it)
  else
    it.moveOn

/-- The pool id in the header at an address (`get_poolid`), into a buffer of the
iterator's own pool of buffers. A negative result is an error. -/
def getPoolid (keyLoc : Nat) (buf : Option Region) : SystemM Int :=
  match buf with
  | none => pure NvmErrorCode.outOfMemory.retCode
  | some buf => do
      match ← liftStore (nvmReadv store [⟨poolBuffer buf, store.sectorSize, keyLoc, .write⟩]) with
      | .error code => pure code.retCode
      | .ok (_, buffers) => pure (asInt (readHeader (buffers.headD buf)).poolId)

/-- The loop of `iter_over_pool`. -/
def iterOverPoolLoop (buf : Option Region) :
    (rounds : Nat) → PoolIterator → SystemM (Except Int Unit × PoolIterator)
  | 0, _ => liftStore neverReturns
  | rounds + 1, it => do
      let (iterated, it) ← it.iterate
      match iterated with
      | .error code => pure (.error code, it)
      | .ok () =>
          let keyLoc := it.getIterLoc.startLba
          if it.poolHash = keyLoc &&& store.poolMask ∨ it.poolId = poolIdAll then
            if store.maxPools ≤ 2 ^ store.poolBits then
              pure (.ok (), it)
            else
              let foundPoolId ← getPoolid store keyLoc buf
              if foundPoolId < 0 then
                pure (.error foundPoolId, it)
              else if foundPoolId = asInt it.poolId.toNat then
                pure (.ok (), it)
              else
                iterOverPoolLoop buf rounds it
          else
            iterOverPoolLoop buf rounds it

/-- The ranges that an iterator can still come to: those in its buffer and one for each
sector that is left to iterate over. -/
def roundsLeft (it : PoolIterator) : Nat := it.numRangesFound + it.rangeToIterate.length

/-- Set the iterator to the next range of its pool (`iter_over_pool`). -/
def iterOverPool (buf : Option Region) (it : PoolIterator) :
    SystemM (Except Int Unit × PoolIterator) := do
  if !(← it.validateIter) then
    pure (.error NvmErrorCode.invalidInput.retCode, it)
  else
    iterOverPoolLoop store buf (it.roundsLeft + 1) it

end PoolIterator

/-- The buffers of an iteration: the caller's buffer for values, and what the pools of
buffers hand out. -/
structure IterationBuffers where
  value : Memory
  valueLen : Nat
  poolIdBuf : Option Region
  headerBuf : Option Region

/-- Begin an iteration over a pool (`kv_begin`). The memory of a new iterator and a place
for it may have run out. -/
def kvBegin (store : NvmKvStore) (iter : LogicalIterRanges) (poolId : UInt32)
    (buffers : IterationBuffers) (allocated : Except Int KvBatchIterator) :
    SystemM (Except Int PoolIterator) := do
  if !(← liftStore (kvValidatePoolId poolId)) then
    pure (.error NvmErrorCode.invalidInput.retCode)
  else
    match allocated with
    | .error code => pure (.error code)
    | .ok memory =>
        let it := PoolIterator.allocIter memory poolId (store.poolIdHash poolId)
        if !(← it.validateIter) then
          pure (.error NvmErrorCode.invalidInput.retCode)
        else
          let it := { it with
            toKvBatchIterator := it.initIter store.usrData.startLba store.usrData.length
              iter.nvmMaxNumLogicalIterRanges store.poolMask }
          let (moved, it) ← it.iterOverPool store buffers.poolIdBuf
          match moved with
          | .error code => pure (.error code)
          | .ok () => pure (.ok it)

/-- Move an iterator on within its pool (`kv_next`). -/
def kvNext (store : NvmKvStore) (buffers : IterationBuffers) (it : PoolIterator) :
    SystemM (Except Int Unit × PoolIterator) :=
  it.iterOverPool store buffers.poolIdBuf

/-- What `kv_get_current` returns: the key, the caller's buffer and the number of bytes
in it, and the information on the key. The address is that of the range read. -/
structure CurrentPair where
  key : List UInt8
  value : Region
  length : Nat
  keyLen : Nat
  valueLen : Nat
  keyLoc : Nat

/-- The two vectors that are read at a range: the header's sector, and the value's
sectors up to the end of the range or of the caller's buffer. -/
def currentBuffers (store : NvmKvStore) (value : Memory) (valueLen : Nat) (buf : Region)
    (range : NvmBlockRange) : ReadBuffers :=
  let rangeLen := range.length * store.sectorSize % 2 ^ 64
  let userBufferUsage := store.sectorSize < rangeLen
  let readLen := if userBufferUsage then rangeLen - store.sectorSize else store.sectorSize
  { buf := buf
    value := value
    valueIovLen := min (nvmKvRoundUptoBlk valueLen store.sectorSize) readLen
    numIovs := if userBufferUsage then 2 else 1 }

/-- The pair in the buffers read at a range, for the caller. -/
def currentPair (store : NvmKvStore) (valueLen keyLoc : Nat) (buf value : Region) :
    CurrentPair :=
  let hdr := readHeader buf
  let retReadLen := if valueLen < hdr.valueLen then valueLen else hdr.valueLen
  { key := buf.slice mKvHeaderSize hdr.keyLen
    value :=
      if hdr.valueOffset < store.sectorSize then
        value.copy 0 retReadLen (buf.drop hdr.valueOffset)
      else value
    length := retReadLen
    keyLen := hdr.keyLen
    valueLen := hdr.valueLen
    keyLoc := keyLoc }

/-- Leave the range at the position and go on with `next` at the next one of the pool. -/
def passOver (store : NvmKvStore) (buffers : IterationBuffers) (value : Memory)
    (it : PoolIterator)
    (next : PoolIterator → SystemM (Except Int CurrentPair × Memory × PoolIterator)) :
    SystemM (Except Int CurrentPair × Memory × PoolIterator) := do
  let (moved, it) ← it.iterOverPool store buffers.poolIdBuf
  match moved with
  | .error code => pure (.error code, value, it)
  | .ok () => next it

/-- The loop of `kv_get_current`. What it has read at ranges passed over stays in the
caller's buffer. -/
def getCurrentLoop (store : NvmKvStore) (buffers : IterationBuffers) :
    (rounds : Nat) → Memory → PoolIterator →
      SystemM (Except Int CurrentPair × Memory × PoolIterator)
  | 0, _, _ => liftStore neverReturns
  | rounds + 1, value, it => do
      if !(← it.validateIter) then
        pure (.error NvmErrorCode.invalidInput.retCode, value, it)
      else
        match buffers.headerBuf with
        | none => pure (.error NvmErrorCode.outOfMemory.retCode, value, it)
        | some buf =>
            let range := it.getIterLoc
            let reading := currentBuffers store value buffers.valueLen buf range
            match ← liftStore (nvmReadv store (readIovec store reading range.startLba)) with
            | .error code => pure (.error code.retCode, value, it)
            | .ok (retReadLen, regions) =>
                let buf := regions.headD buf
                let value := { value with bytes := regions.getD 1 value.bytes }
                let hdr := readHeader buf
                if retReadLen = 0 ∨ !hdr.isKey then
                  passOver store buffers value it (getCurrentLoop store buffers rounds value)
                else
                  match ← liftStore (kvExpire store hdr range.startLba true) with
                  | .error .objectNotFound =>
                      passOver store buffers value it (getCurrentLoop store buffers rounds value)
                  | .error code => pure (.error code.retCode, value, it)
                  | .ok () =>
                      let pair :=
                        currentPair store buffers.valueLen range.startLba buf value.bytes
                      pure (.ok pair, { value with bytes := pair.value }, it)

/-- Fetch the key and the value at the position of an iterator (`kv_get_current`). -/
def kvGetCurrent (store : NvmKvStore) (buffers : IterationBuffers) (value : Memory)
    (it : PoolIterator) : SystemM (Except Int CurrentPair × Memory × PoolIterator) :=
  if kvValidateValue store false buffers.valueLen then
    getCurrentLoop store buffers (it.roundsLeft + 1) value it
  else
    pure (.error NvmErrorCode.invalidInput.retCode, value, it)

/-- A client's loop: take the current pair and move on, in turns. The result is what was
taken and the code with which a call failed. -/
def iterateLoop (store : NvmKvStore) (buffers : IterationBuffers) :
    (rounds : Nat) → Memory → PoolIterator → SystemM (List CurrentPair × Int)
  | 0, _, _ => liftStore neverReturns
  | rounds + 1, value, it => do
      let (got, value, it) ← kvGetCurrent store buffers value it
      match got with
      | .error code => pure ([], code)
      | .ok pair =>
          let (moved, it) ← kvNext store buffers it
          match moved with
          | .error code => pure ([pair], code)
          | .ok () =>
              let (rest, code) ← iterateLoop store buffers rounds value it
              pure (pair :: rest, code)

/-- A client iterates over a pool. -/
def iteratePool (store : NvmKvStore) (iter : LogicalIterRanges) (poolId : UInt32)
    (buffers : IterationBuffers) (allocated : Except Int KvBatchIterator) :
    SystemM (List CurrentPair × Int) := do
  match ← kvBegin store iter poolId buffers allocated with
  | .error code => pure ([], code)
  | .ok it => iterateLoop store buffers (it.roundsLeft + 1) buffers.value it

end Nvmkv
