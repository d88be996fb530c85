import Nvmkv.StoreMachine

/-!
# Reading and deleting a pair

`kv_get`, `kv_get_key_info`, `kv_exists` and `kv_delete` with the functions they
share. All of them visit the probe addresses of the key in order and stop at the
first one whose header is the key's. Only the existence check asks the device
first whether anything is mapped there.

A delete finds the address in the same way, takes it on the safe list, and
trims the range of a whole slot from that address on. When it had to wait for
the address it searches again, and from then on works with the address found
then.
-/

namespace Nvmkv

/-- What a lookup tells about a key (`nvm_kv_key_info_t`). A call that does not
set the pool leaves it open. -/
structure NvmKvKeyInfo where
  poolId : Option UInt32
  keyLen : Nat
  valueLen : Nat
  expiry : Nat
  genCount : Nat
  deriving DecidableEq

/-- The information that is returned of a header. -/
def keyInfoOf (poolId : Option UInt32) (hdr : NvmKvHeader) : NvmKvKeyInfo where
  poolId := poolId
  keyLen := hdr.keyLen
  valueLen := hdr.valueLen
  expiry := hdr.expiry
  genCount := hdr.genCount

/-- The buffers of a reading and the two vectors' lengths, which one round of the
loop leaves to the next one. -/
structure ReadBuffers where
  buf : Region
  value : Memory
  valueIovLen : Nat
  numIovs : Nat

/-- What a successful reading returns: the bytes read, the header buffer, the
value buffer and the address. -/
structure MediaRead where
  readLen : Nat
  buf : Region
  value : Region
  keyHash : Nat

/-- The vectors read at an address. -/
def readIovec (store : NvmKvStore) (buffers : ReadBuffers) (lba : Nat) : List NvmIovec :=
  if buffers.numIovs = 2 then
    [⟨poolBuffer buffers.buf, store.sectorSize, lba, .write⟩,
      ⟨buffers.value, buffers.valueIovLen, lba + 1, .write⟩]
  else
    [⟨poolBuffer buffers.buf, store.sectorSize, lba, .write⟩]

/-- The reading is limited to the sectors found mapped (`read_exact`). -/
def limitRead (store : NvmKvStore) (valueLen : Nat) (found : NvmBlockRange)
    (buffers : ReadBuffers) : ReadBuffers :=
  let tempValLen := (found.length * store.sectorSize - store.sectorSize) % 2 ^ 32
  if tempValLen ≠ 0 then
    if tempValLen < nvmKvRoundUptoBlk valueLen store.sectorSize then
      { buffers with valueIovLen := tempValLen }
    else buffers
  else
    { buffers with numIovs := 1 }

/-- Read one address and go on with `next` when its header is not the key's. -/
def kvReadMediaAt (store : NvmKvStore) (poolId : UInt32) (key : List UInt8) (lba : Nat)
    (buffers : ReadBuffers) (next : ReadBuffers → StoreM (Except NvmErrorCode MediaRead)) :
    StoreM (Except NvmErrorCode MediaRead) := do
  match ← nvmReadv store (readIovec store buffers lba) with
  | .error code => pure (.error code)
  | .ok (readLen, regions) =>
      let buf := regions.headD buffers.buf
      let value := { buffers.value with bytes := regions.getD 1 buffers.value.bytes }
      if readLen ≠ 0 ∧ headerMatches buf poolId key then
        pure (.ok ⟨readLen, buf, value.bytes, lba⟩)
      else
        next { buffers with buf := buf, value := value }

/-- The loop of `kv_read_media` over the addresses still to be read. -/
def kvReadMediaProbes (store : NvmKvStore) (poolId : UInt32) (key : List UInt8)
    (valueLen : Nat) (readExact : Bool) :
    List Nat → ReadBuffers → StoreM (Except NvmErrorCode MediaRead)
  | [], _ => pure (.error .objectNotFound)
  | lba :: rest, buffers => do
      if readExact = true ∧ valueLen ≠ 0 then
        match ← kvRangeExists ⟨lba, store.maxSearchRange⟩ with
        | .ok found =>
            kvReadMediaAt store poolId key lba (limitRead store valueLen found buffers)
              fun buffers => kvReadMediaProbes store poolId key valueLen readExact rest buffers
        | .error .objectNotFound =>
            kvReadMediaProbes store poolId key valueLen readExact rest buffers
        | .error code => pure (.error code)
      else
        kvReadMediaAt store poolId key lba buffers
          fun buffers => kvReadMediaProbes store poolId key valueLen readExact rest buffers

/-- Read the pair of a key (`kv_read_media`). Without a value buffer only the
first sector is read. -/
def kvReadMedia (store : NvmKvStore) (poolId : UInt32) (key : List UInt8) (value : Memory)
    (valueLen : Nat) (buf : Region) (readExact : Bool) :
    StoreM (Except NvmErrorCode MediaRead) :=
  kvReadMediaProbes store poolId key valueLen readExact (store.probes poolId key)
    { buf := buf
      value := value
      valueIovLen := nvmKvRoundUptoBlk valueLen store.sectorSize
      numIovs := if 0 < valueLen then 2 else 1 }

/-- A read value: its length as returned, the caller's buffer, and the key's
information. -/
structure GetResult where
  length : Nat
  value : Region
  keyInfo : NvmKvKeyInfo

/-- Get a value (`kv_get`). A value that shares the sector of the header is
copied to the caller's buffer. The code copies as many bytes as the header says; the buffers
have no ends here, so that a header whose value leaves the sector is copied too, where the
code reads and writes behind its buffers. -/
def kvGet (store : NvmKvStore) (poolId : UInt32) (key : List UInt8) (value : Memory)
    (valueLen : Nat) (readExact : Bool) (buf : Option Region) :
    StoreM (Except NvmErrorCode GetResult) := do
  if !(← kvValidatePoolId poolId) || !kvValidateKey key ||
      !kvValidateValue store true valueLen then
    pure (.error .invalidInput)
  else
    match buf with
    | none => pure (.error .outOfMemory)
    | some buf =>
        match ← kvReadMedia store poolId key value valueLen buf readExact with
        | .error code => pure (.error code)
        | .ok read =>
            let hdr := readHeader read.buf
            match ← kvExpire store hdr read.keyHash true with
            | .error code => pure (.error code)
            | .ok () =>
                let value :=
                  if hdr.valueOffset < store.sectorSize then
                    read.value.copy 0 hdr.valueLen (read.buf.drop hdr.valueOffset)
                  else read.value
                pure (.ok
                  ⟨if valueLen < hdr.valueLen then valueLen else hdr.valueLen, value,
                    keyInfoOf none hdr⟩)

/-- Get the information on a key (`kv_get_key_info`). -/
def kvGetKeyInfo (store : NvmKvStore) (poolId : UInt32) (key : List UInt8)
    (buf : Option Region) : StoreM (Except NvmErrorCode NvmKvKeyInfo) := do
  if !(← kvValidatePoolId poolId) || !kvValidateKey key then
    pure (.error .invalidInput)
  else
    match buf with
    | none => pure (.error .outOfMemory)
    | some buf =>
        match ← kvReadMedia store poolId key (poolBuffer fun _ => 0) 0 buf false with
        | .error code => pure (.error code)
        | .ok read =>
            let hdr := readHeader read.buf
            match ← kvExpire store hdr read.keyHash true with
            | .error code => pure (.error code)
            | .ok () => pure (.ok (keyInfoOf (some poolId) hdr))

/-- The loop of `kv_range_exist_wrapper` for an existence check. The read length
is unsigned there, so that a failed read is taken for one that read something
and the buffer is compared as it was. -/
def kvRangeExistProbes (store : NvmKvStore) (poolId : UInt32) (key : List UInt8) :
    List Nat → Region → StoreM (Except NvmErrorCode NvmKvHeader)
  | [], _ => pure (.error .objectNotFound)
  | lba :: rest, buf => do
      match ← kvRangeExists ⟨lba, store.maxSearchRange⟩ with
      | .error .objectNotFound => kvRangeExistProbes store poolId key rest buf
      | .error _ => pure (.error .internalFailure)
      | .ok _ =>
          let read ← nvmReadv store [⟨poolBuffer buf, store.sectorSize, lba, .write⟩]
          let (readBytes, buf) :=
            match read with
            | .error _ => (1, buf)
            | .ok (readLen, regions) => (readLen, regions.headD buf)
          let hdr := readHeader buf
          if 0 < readBytes ∧ headerMatches buf poolId key then
            match ← kvExpire store hdr lba true with
            | .error code => pure (.error code)
            | .ok () => pure (.ok hdr)
          else
            kvRangeExistProbes store poolId key rest buf

/-- Whether a key exists, with its information (`kv_exists`). -/
def kvExists (store : NvmKvStore) (poolId : UInt32) (key : List UInt8) (buf : Option Region) :
    StoreM (Except NvmErrorCode (Option NvmKvKeyInfo)) := do
  if !(← kvValidatePoolId poolId) || !kvValidateKey key then
    pure (.error .invalidInput)
  else
    match buf with
    | none => pure (.error .outOfMemory)
    | some buf =>
        match ← kvRangeExistProbes store poolId key (store.probes poolId key) buf with
        | .error .objectNotFound => pure (.ok none)
        | .error code => pure (.error code)
        | .ok hdr => pure (.ok (some (keyInfoOf (some poolId) hdr)))

/-- The trim vectors of one batch of `delete_range`, with `fuel` places left in
the batch, and what remains after it. -/
def deleteBatch (capabilities : NvmKvStoreCapabilities) (delLba : Nat) :
    (fuel remaining totalIovs : Nat) → List NvmIovec × Nat × Nat
  | 0, remaining, totalIovs => ([], remaining, totalIovs)
  | fuel + 1, remaining, totalIovs =>
      let maxTrimSize := capabilities.maxTrimSize
      let discardLen := if maxTrimSize < remaining then maxTrimSize else remaining
      let vector : NvmIovec :=
        { iovBase := poolBuffer fun _ => 0
          iovLen := nvmKvRoundUptoBlk discardLen capabilities.nvmSectorSize
          iovLba := delLba + totalIovs * (maxTrimSize / capabilities.nvmSectorSize)
          iovOpcode := .trim }
      if remaining - discardLen = 0 then
        ([vector], 0, totalIovs + 1)
      else
        let (vectors, after) :=
          deleteBatch capabilities delLba fuel (remaining - discardLen) (totalIovs + 1)
        (vector :: vectors, after)

/-- The batches of `delete_range`. Every batch trims at least one byte of what
remains, so a length bounds the rounds. -/
def deleteRangeLoop (capabilities : NvmKvStoreCapabilities) (delLba : Nat) :
    (fuel remaining totalIovs : Nat) → StoreM (Except NvmErrorCode Unit)
  | 0, _, _ => neverReturns
  | fuel + 1, remaining, totalIovs => do
      let (vectors, remaining, totalIovs) :=
        deleteBatch capabilities delLba capabilities.nvmMaxNumIovs remaining totalIovs
      match ← nvmWritev vectors with
      | .error _ => pure (.error .io)
      | .ok () =>
          if remaining = 0 then
            pure (.ok ())
          else
            deleteRangeLoop capabilities delLba fuel remaining totalIovs

/-- Trim a number of sectors from an address on (`delete_range`). The array of
vectors is what is allocated. -/
def deleteRange (store : NvmKvStore) (delLba discardSec : Nat) (allocated : Bool) :
    StoreM (Except NvmErrorCode Unit) :=
  if allocated then
    let remaining := discardSec * store.sectorSize
    deleteRangeLoop store.capabilities delLba (remaining + 1) remaining 0
  else
    pure (.error .outOfMemory)

/-- A key that is not there counts as deleted. -/
def deleteCode (code : NvmErrorCode) : Except NvmErrorCode Unit :=
  if code = .objectNotFound then .ok () else .error code

/-- Trim the pair at an address and release the address. -/
def kvDeleteTrim (store : NvmKvStore) (keyHash : Nat) (allocated : Bool) :
    StoreM (Except NvmErrorCode Unit) := do
  let retCode ← deleteRange store keyHash store.delSecCount allocated
  let _ ← deleteLbaFromSafeList keyHash
  pure retCode

/-- Take the address of a key that is to be deleted and trim it. After waiting
the key is searched again; the address released in the end is the one found
last. -/
def kvDeleteAt (store : NvmKvStore) (poolId : UInt32) (key : List UInt8) (keyHash : Nat)
    (buf : Option Region) (allocated : Bool) : StoreM (Except NvmErrorCode Unit) := do
  let wait ← insertEntry keyHash
  if wait then
    match buf with
    | none =>
        let _ ← deleteLbaFromSafeList keyHash
        pure (.error .outOfMemory)
    | some buf =>
        match ← kvReadMedia store poolId key (poolBuffer fun _ => 0) 0 buf false with
        | .error code =>
            let _ ← deleteLbaFromSafeList keyHash
            pure (deleteCode code)
        | .ok read => kvDeleteTrim store read.keyHash allocated
  else
    kvDeleteTrim store keyHash allocated

/-- Delete a key by a search on the media. -/
def kvDeleteSearch (store : NvmKvStore) (poolId : UInt32) (key : List UInt8)
    (buf : Option Region) (allocated : Bool) : StoreM (Except NvmErrorCode Unit) := do
  match buf with
  | none => pure (.error .outOfMemory)
  | some buf =>
      match ← kvReadMedia store poolId key (poolBuffer fun _ => 0) 0 buf false with
      | .error code => pure (deleteCode code)
      | .ok read => kvDeleteAt store poolId key read.keyHash (some read.buf) allocated

/-- Delete a key, synchronized by the safe list (`kv_delete_sync`). The address
of a key that was in the cache is taken from there. -/
def kvDeleteSync (store : NvmKvStore) (poolId : UInt32) (key : List UInt8)
    (buf : Option Region) (allocated : Bool) : StoreM (Except NvmErrorCode Unit) := do
  if 0 < store.cacheSize then
    match ← askCacheDelete key poolId with
    | some entry => kvDeleteAt store poolId key entry.lba buf allocated
    | none => kvDeleteSearch store poolId key buf allocated
  else
    kvDeleteSearch store poolId key buf allocated

/-- Delete a key (`kv_delete`). -/
def kvDelete (store : NvmKvStore) (poolId : UInt32) (key : List UInt8) (buf : Option Region)
    (allocated : Bool) : StoreM (Except NvmErrorCode Unit) := do
  if !(← kvValidatePoolId poolId) || !kvValidateKey key then
    pure (.error .invalidInput)
  else
    kvDeleteSync store poolId key buf allocated

end Nvmkv
