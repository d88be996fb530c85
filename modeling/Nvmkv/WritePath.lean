import Nvmkv.StoreMachine

/-!
# Writing a pair

`kv_put` and the functions it is built from: the layout of a pair in its write
buffer, the trim vector of a replaced value, the write vectors, and the search
for the address to write to.

Memory that the code takes from an allocator holds arbitrary bytes. It is an
argument here: the buffer of the pool and the array of vectors come with what
they happen to hold, or not at all when the allocation fails. A buffer of the
pool is allocated only for a request that is longer than the buffers. What follows a
`goto` to the end of a function in the code is the result of a body here, and
the function releases the address after its body.

The search visits the probe addresses in order. Its inner loop reads the header
again at most once: a second reading is only asked for after waiting for the
address, and the address is then held.
-/

namespace Nvmkv

/-- One pair to be put (`nvm_kv_iovec_t`). -/
structure NvmKvIovec where
  key : List UInt8
  value : Memory
  valueLen : Nat
  expiry : Nat
  genCount : Nat
  replace : Bool

/-- What every buffer of the pool has room for (`M_BUFFER_LIMIT`). -/
def mBufferLimit : Nat := 4096

/-- The buffer that the pool hands out next: the bytes that it holds, and whether a longer one
can be had in its place when it is too short for a request. -/
structure PoolBuf where
  bytes : Region
  grows : Bool

/-- A buffer of the pool with room for some bytes (`get_buf`). The pool waits for a buffer, so
that only a request for more than every buffer has room for can fail, when no memory is left
for a longer one. -/
def PoolBuf.getBuf (buf : PoolBuf) (size : Nat) : Option Region :=
  if size ≤ mBufferLimit ∨ buf.grows = true then some buf.bytes else none

/-- The memory one call takes: a buffer of the pool and an array of vectors. -/
structure Allocation where
  buf : PoolBuf
  iovec : Option (Nat → NvmIovec)

/-- What `kv_alloc_for_write` decides about a pair. -/
structure WriteLayout where
  userBufferUsage : Bool
  valueOffset : Nat
  iovLen : Nat
  iovCount : Nat

/-- Whether the value is written from the user's own buffer (`kv_use_user_buf`). -/
def kvUseUserBuf (sumWriteLen sectorSize : Nat) : Bool := sectorSize < sumWriteLen

/-- The layout of a pair: whether the value is written from the caller's buffer,
at which offset it starts, and how many vectors are counted for it. -/
def writeLayout (capabilities : NvmKvStoreCapabilities) (keyLen : Nat) (value : Memory)
    (valueLen : Nat) : WriteLayout :=
  let sectorSize := capabilities.nvmSectorSize
  let unaligned := value.address % sectorSize ≠ 0
  let sumWriteLen := mKvHeaderSize + keyLen + valueLen
  let tooLong := kvUseUserBuf sumWriteLen sectorSize
  let userBufferUsage := tooLong && !decide unaligned
  let sumWriteLen := if tooLong && decide unaligned then sectorSize + valueLen else sumWriteLen
  let valueOffset :=
    if userBufferUsage then sectorSize
    else if unaligned ∧ sectorSize < sumWriteLen then sectorSize
    else mKvHeaderSize + keyLen
  let iovLen :=
    if userBufferUsage then nvmKvRoundUptoBlk valueLen sectorSize
    else nvmKvRoundUptoBlk sumWriteLen sectorSize
  { userBufferUsage := userBufferUsage
    valueOffset := valueOffset
    iovLen := iovLen
    iovCount := (if userBufferUsage then 1 else 0) +
      nvmKvRoundUptoBlk iovLen capabilities.maxWriteSize / capabilities.maxWriteSize }

/-- The bytes that the write buffer of a pair needs: the sector of the header when the value is
written from the caller's buffer, and all that is written otherwise. -/
def WriteLayout.bufLen (capabilities : NvmKvStoreCapabilities) (layout : WriteLayout) : Nat :=
  if layout.userBufferUsage then capabilities.nvmSectorSize else layout.iovLen

/-- The layout and the write buffer of a pair. -/
def kvAllocForWrite (capabilities : NvmKvStoreCapabilities) (keyLen : Nat) (value : Memory)
    (valueLen : Nat) (buf : PoolBuf) : Except NvmErrorCode (WriteLayout × Region) :=
  let layout := writeLayout capabilities keyLen value valueLen
  if capabilities.nvmMaxNumIovs < layout.iovCount then
    .error .invalidInput
  else
    match buf.getBuf (layout.bufLen capabilities) with
    | none => .error .outOfMemory
    | some buf => .ok (layout, buf)

/-- Nothing but the number of its vectors can fail for a pair when a long buffer can be had. -/
theorem kvAllocForWrite_grows {capabilities : NvmKvStoreCapabilities} {keyLen valueLen : Nat}
    {value : Memory} {buf : PoolBuf} (grows : buf.grows = true)
    (few : (writeLayout capabilities keyLen value valueLen).iovCount ≤
      capabilities.nvmMaxNumIovs) :
    kvAllocForWrite capabilities keyLen value valueLen buf =
      .ok (writeLayout capabilities keyLen value valueLen, buf.bytes) := by
  unfold kvAllocForWrite
  rw [if_neg (Nat.not_lt.mpr few), PoolBuf.getBuf, if_pos (.inr grows)]

/-- The trim vector for the sectors of a longer old value, if there are any. The
lengths are 32-bit numbers. -/
def kvProcessForTrim (capabilities : NvmKvStoreCapabilities) (valueLen trimLen lba : Nat) :
    Except NvmErrorCode (List NvmIovec) :=
  if capabilities.maxTrimSize < trimLen then
    .error .internalFailure
  else if trimLen ≠ 0 then
    let sectorSize := capabilities.nvmSectorSize
    let trimBytes := nvmKvRoundUptoBlk trimLen sectorSize % 2 ^ 32
    let valueBytes := nvmKvRoundUptoBlk valueLen sectorSize % 2 ^ 32
    let trimLen := (trimBytes + 2 ^ 32 - valueBytes) % 2 ^ 32
    if 0 < trimLen then
      .ok [⟨poolBuffer fun _ => 0, trimLen, lba + valueBytes / sectorSize, .trim⟩]
    else
      .ok []
  else
    .ok []

/-- The write vectors for `remaining` bytes from a buffer on, each as long as one
vector may be. Every round writes at least one byte, so the length itself bounds
the rounds. -/
def fillIovec (capabilities : NvmKvStoreCapabilities) (tempBuf : Memory) (keyHashVal : Nat) :
    (fuel remaining count : Nat) → List NvmIovec
  | 0, _, _ => []
  | fuel + 1, remaining, count =>
      if remaining = 0 then
        []
      else
        let maxWriteSize := capabilities.maxWriteSize
        let vectorSize := if remaining < maxWriteSize then remaining else maxWriteSize
        { iovBase :=
            { address := tempBuf.address + count * maxWriteSize
              bytes := tempBuf.bytes.drop (count * maxWriteSize) }
          iovLen := vectorSize
          iovLba := keyHashVal + count * (maxWriteSize / capabilities.nvmSectorSize)
          iovOpcode := .write } ::
            fillIovec capabilities tempBuf keyHashVal fuel (remaining - vectorSize) (count + 1)

/-- The write vectors of a pair whose header is complete. When the value is
copied behind the header, the rest of one sector is written. -/
def pairIovec (capabilities : NvmKvStoreCapabilities) (layout : WriteLayout) (buf : Region)
    (value : Memory) (valueLen keyHashVal : Nat) : List NvmIovec :=
  let sectorSize := capabilities.nvmSectorSize
  if layout.userBufferUsage then
    let remaining := nvmKvRoundUptoBlk valueLen sectorSize
    ⟨poolBuffer buf, sectorSize, keyHashVal, .write⟩ ::
      fillIovec capabilities value (keyHashVal + 1) remaining remaining 0
  else
    let buf := buf.copy layout.valueOffset valueLen value.bytes
    fillIovec capabilities (poolBuffer buf) keyHashVal sectorSize sectorSize 0

/-- The expiry stored in the header: relative expiries count from now. -/
def absoluteExpiry (expiry time : Nat) : Nat := if expiry = 0 then 0 else (expiry + time) % 2 ^ 32

/-- Complete the header and fill the write vectors. Also returns the expiry time
for the cache, which is left at zero when there is no expiry. -/
def kvProcessForWrite (capabilities : NvmKvStoreCapabilities) (poolId : UInt32)
    (pair : NvmKvIovec) (layout : WriteLayout) (buf : Region) (expiry keyHashVal : Nat) :
    StoreM (List NvmIovec × Nat) := do
  let time ← if expiry = 0 then pure 0 else currentTime
  let absExpiry := absoluteExpiry expiry time
  let buf := writeHeader buf poolId pair.key pair.valueLen layout.valueOffset pair.genCount
    absExpiry
  pure (pairIovec capabilities layout buf pair.value pair.valueLen keyHashVal, absExpiry)

/-- How a search for an address ends: its code, the length of a replaced longer
value, the address, whether the caller holds it, and the header buffer. -/
structure GenLba where
  retCode : Except NvmErrorCode Unit
  trimLen : Nat
  keyHashVal : Nat
  insertLba : Bool
  buf : Region

/-- How the reading of one address ends: the whole search returns, or it goes on
at the next address unless the caller holds this one. -/
inductive SlotRead where
  | returns (result : GenLba)
  | leaves (insertLba : Bool) (trimLen : Nat) (buf : Region)

/-- A longer replaced value leaves sectors to trim. -/
def replacedLen (hdr : NvmKvHeader) (valueLen : Nat) : Nat :=
  if valueLen < hdr.valueLen then hdr.valueLen else 0

/-- The inner loop of `kv_gen_lba` at one address. -/
def kvGenLbaRead (store : NvmKvStore) (poolId : UInt32) (pair : NvmKvIovec) (lba : Nat) :
    (rounds : Nat) → (insertLba : Bool) → Region → StoreM SlotRead
  | 0, _, _ => neverReturns
  | rounds + 1, insertLba, buf => do
      match ← nvmReadv store [⟨poolBuffer buf, store.sectorSize, lba, .write⟩] with
      | .error code => pure (.returns ⟨.error code, 0, lba, insertLba, buf⟩)
      | .ok (_, buffers) =>
          let buf := buffers.headD buf
          let hdr := readHeader buf
          if headerMatches buf poolId pair.key then
            match ← kvExpire store hdr lba false with
            | .error .objectNotFound =>
                if insertLba then
                  pure (.returns ⟨.ok (), 0, lba, true, buf⟩)
                else
                  let wait ← insertEntry lba
                  if wait then
                    kvGenLbaRead store poolId pair lba rounds true buf
                  else
                    pure (.returns ⟨.ok (), 0, lba, true, buf⟩)
            | .error code => pure (.returns ⟨.error code, 0, lba, insertLba, buf⟩)
            | .ok () =>
                if pair.replace then
                  if insertLba then
                    pure (.leaves true (replacedLen hdr pair.valueLen) buf)
                  else
                    let wait ← insertEntry lba
                    if wait then
                      kvGenLbaRead store poolId pair lba rounds true buf
                    else
                      pure (.leaves true (replacedLen hdr pair.valueLen) buf)
                else
                  pure (.returns ⟨.error .objectExists, 0, lba, insertLba, buf⟩)
          else
            if insertLba then
              let _ ← deleteLbaFromSafeList lba
              pure (.leaves false 0 buf)
            else
              pure (.leaves false 0 buf)

/-- Read one address and continue with `next` when it is not taken. -/
def kvGenLbaAt (store : NvmKvStore) (poolId : UInt32) (pair : NvmKvIovec) (lba : Nat)
    (insertLba : Bool) (buf : Region) (next : Region → StoreM GenLba) : StoreM GenLba := do
  match ← kvGenLbaRead store poolId pair lba 2 insertLba buf with
  | .returns result => pure result
  | .leaves true trimLen buf => pure ⟨.ok (), trimLen, lba, true, buf⟩
  | .leaves false _ buf => next buf

/-- The outer loop of `kv_gen_lba` over the addresses still to be tried. -/
def kvGenLbaProbes (store : NvmKvStore) (poolId : UInt32) (pair : NvmKvIovec) :
    List Nat → (insertLba : Bool) → Region → StoreM GenLba
  | [], insertLba, buf =>
      pure ⟨.error .internalFailure, 0, store.probeLba poolId pair.key maxCollision, insertLba,
        buf⟩
  | lba :: rest, insertLba, buf => do
      match ← kvRangeExists ⟨lba, store.maxSearchRange⟩ with
      | .error .objectNotFound =>
          let wait ← insertEntry lba
          if wait then
            kvGenLbaAt store poolId pair lba true buf
              fun buf => kvGenLbaProbes store poolId pair rest false buf
          else
            pure ⟨.ok (), 0, lba, true, buf⟩
      | .error _ => pure ⟨.error .internalFailure, 0, lba, insertLba, buf⟩
      | .ok _ =>
          kvGenLbaAt store poolId pair lba insertLba buf
            fun buf => kvGenLbaProbes store poolId pair rest false buf

/-- The addresses chosen earlier in a batch, with their keys. -/
abbrev LbaList := List (Nat × List UInt8)

/-- Where the search of a batch starts: at the first address that the batch has
not chosen yet, unless that one belongs to the same key or is the last one. -/
inductive BatchStart where
  | duplicate (lba : Nat)
  | exhausted (lba : Nat)
  | probes (lbas : List Nat)

/-- Where the search of a batch begins, along the addresses of the key. -/
def skipChosen (lbaList : LbaList) (key : List UInt8) : List Nat → BatchStart
  | [] => .exhausted 0
  | [lba] => .exhausted lba
  | lba :: next :: rest =>
      match lbaList.lookup lba with
      | none => .probes (lba :: next :: rest)
      | some chosenKey =>
          if chosenKey = key then .duplicate lba else skipChosen lbaList key (next :: rest)

/-- Find the address for a pair (`kv_gen_lba`). -/
def kvGenLba (store : NvmKvStore) (poolId : UInt32) (pair : NvmKvIovec) (buf : Region)
    (insertLba : Bool) (lbaList : Option LbaList) : StoreM GenLba :=
  match lbaList with
  | none => kvGenLbaProbes store poolId pair (store.probes poolId pair.key) insertLba buf
  | some chosen =>
      match skipChosen chosen pair.key (store.probes poolId pair.key) with
      | .duplicate lba => pure ⟨.ok (), 0, lba, insertLba, buf⟩
      | .exhausted lba => pure ⟨.error .internalFailure, 0, lba, insertLba, buf⟩
      | .probes lbas => kvGenLbaProbes store poolId pair lbas insertLba buf

/-- What the end of `kv_put` needs: the code, the address, and whether to release
it. -/
structure PutBody where
  retCode : Except NvmErrorCode Unit
  keyHashVal : Nat
  insertLba : Bool

/-- The vectors handed to the device: the first `count` places of the array, of
which the prepared ones fill the first and the rest hold what they held. -/
def handedIovec (memory : Nat → NvmIovec) (prepared : List NvmIovec) (count : Nat) :
    List NvmIovec :=
  (List.range count).map fun i => prepared.getD i (memory i)

/-- The expiry that is stored: in a store with one expiry for all pairs, that one. -/
def putExpiry (store : NvmKvStore) (pair : NvmKvIovec) : Nat :=
  if store.expiryMode = .globalExpiry then store.globalExpiry else pair.expiry

/-- The part of `kv_put` after the address is known: prepare the vectors, write
them, and remember the address in the cache. The batch is as long as the count
that the layout announced. -/
def kvPutWrite (store : NvmKvStore) (poolId : UInt32) (pair : NvmKvIovec) (layout : WriteLayout)
    (placed : GenLba) (memory : Option (Nat → NvmIovec)) (context : NvmKvCacheContext) :
    StoreM PutBody := do
  let ends (retCode : Except NvmErrorCode Unit) : PutBody :=
    ⟨retCode, placed.keyHashVal, placed.insertLba⟩
  match memory with
  | none => pure (ends (.error .outOfMemory))
  | some memory =>
      match kvProcessForTrim store.capabilities pair.valueLen placed.trimLen placed.keyHashVal with
      | .error code => pure (ends (.error code))
      | .ok trims =>
          let (written, absExpiry) ← kvProcessForWrite store.capabilities poolId pair layout
            placed.buf (putExpiry store pair) placed.keyHashVal
          match ← nvmWritev (handedIovec memory (trims ++ written) layout.iovCount) with
          | .error code => pure (ends (.error code))
          | .ok () =>
              if 0 < store.cacheSize then
                askCachePut pair.key poolId pair.valueLen absExpiry pair.genCount
                  placed.keyHashVal context
                pure (ends (.ok ()))
              else
                pure (ends (.ok ()))

/-- The part of `kv_put` after the cache was asked. A pair found there is written
to the remembered address without a search. -/
def kvPutPlace (store : NvmKvStore) (poolId : UInt32) (pair : NvmKvIovec)
    (allocation : Allocation) (context : NvmKvCacheContext) (existsInCache : Bool) :
    StoreM PutBody := do
  match kvAllocForWrite store.capabilities pair.key.length pair.value pair.valueLen
    allocation.buf with
  | .error code => pure ⟨.error code, 0, existsInCache⟩
  | .ok (layout, buf) =>
      let placed ←
        if existsInCache then
          let cached := context.contextEntry
          pure (GenLba.mk (.ok ())
            (if pair.valueLen < cached.valueLen then cached.valueLen else 0) cached.lba true buf)
        else
          kvGenLba store poolId pair buf false none
      match placed.retCode with
      | .error code => pure ⟨.error code, placed.keyHashVal, placed.insertLba⟩
      | .ok () => kvPutWrite store poolId pair layout placed allocation.iovec context

/-- The body of `kv_put`: validation and the question to the cache. -/
def kvPutBody (store : NvmKvStore) (poolId : UInt32) (pair : NvmKvIovec)
    (allocation : Allocation) : StoreM PutBody := do
  if !(← kvValidatePoolId poolId) || !kvValidateKey pair.key ||
      !kvValidateValue store false pair.valueLen then
    pure ⟨.error .invalidInput, 0, false⟩
  else if 0 < store.cacheSize then
    let (found, context) ← askCacheGet pair.key poolId
    if found then
      if !pair.replace && !context.expired then
        pure ⟨.error .objectExists, 0, false⟩
      else if context.contextState = .cacheEntryFound then
        let wait ← insertEntry context.contextEntry.lba
        if wait then
          let _ ← deleteLbaFromSafeList context.contextEntry.lba
          kvPutPlace store poolId pair allocation .zero false
        else
          kvPutPlace store poolId pair allocation context true
      else
        kvPutPlace store poolId pair allocation context false
    else
      kvPutPlace store poolId pair allocation context false
  else
    kvPutPlace store poolId pair allocation .zero false

/-- Put a pair (`kv_put`). Returns the length of the value. -/
def kvPut (store : NvmKvStore) (poolId : UInt32) (pair : NvmKvIovec) (allocation : Allocation) :
    StoreM (Except NvmErrorCode Nat) := do
  let body ← kvPutBody store poolId pair allocation
  if body.insertLba then
    let _ ← deleteLbaFromSafeList body.keyHashVal
    pure (body.retCode.map fun _ => pair.valueLen)
  else
    pure (body.retCode.map fun _ => pair.valueLen)

end Nvmkv
