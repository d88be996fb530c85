import Mathlib.Data.List.Sort
import Nvmkv.WritePath

/-!
# Calls on several addresses

`kv_batch_put` and `batch_delete_sync` take the addresses of their pairs one by
one and keep them all until the end. A batch put prepares its pairs in the order
given. For each of them it asks the cache, finds the address, and appends trim and
write vectors to two arrays, which are handed to the device as one batch or two.
One flag says for all pairs of a batch whether addresses are held, and the
addresses of the pairs prepared so far are kept in a map.

The arrays come from an allocator and hold arbitrary vectors at first. A place
that was counted for a pair and not filled keeps what it held.
-/

namespace Nvmkv

/-- The memory a batch put takes: the arrays of vectors, of which there are none
when an allocation fails, and a buffer of the pool for each pair. -/
structure BatchAllocation where
  iovec : Option ((Nat → NvmIovec) × (Nat → NvmIovec))
  buf : Nat → PoolBuf

/-- The variables of the loop over the pairs of a batch. -/
structure BatchState where
  insertLba : Bool
  lbaList : LbaList
  finalIovCount : Nat
  iovecTrm : Nat → NvmIovec
  idxTrm : Nat
  iovecWrt : Nat → NvmIovec
  idxWrt : Nat
  puts : List NvmKvCachePut

/-- Nothing is prepared. -/
def BatchState.initial (iovecTrm iovecWrt : Nat → NvmIovec) : BatchState where
  insertLba := false
  lbaList := []
  finalIovCount := 0
  iovecTrm := iovecTrm
  idxTrm := 0
  iovecWrt := iovecWrt
  idxWrt := 0
  puts := []

/-- `map::insert` of an address, which keeps the key that is there. -/
def LbaList.insert (lbaList : LbaList) (lba : Nat) (key : List UInt8) : LbaList :=
  if (lbaList.lookup lba).isSome then lbaList else lbaList ++ [(lba, key)]

/-- The addresses of the map in its order. -/
def LbaList.lbas (lbaList : LbaList) : List Nat := (lbaList.map Prod.fst).insertionSort (· ≤ ·)

/-- An array after vectors were stored from a place on. -/
def storeIovec (array : Nat → NvmIovec) (place : Nat) (vectors : List NvmIovec) :
    Nat → NvmIovec := fun i =>
  if place ≤ i then vectors.getD (i - place) (array i) else array i

/-- The first vectors of an array. -/
def firstIovecs (array : Nat → NvmIovec) (count : Nat) : List NvmIovec :=
  (List.range count).map array

/-- How the question to the cache ends for one pair of a batch: whether the pair is
written to the remembered address, with its context and the flag after it. -/
structure BatchCached where
  existsInCache : Bool
  context : NvmKvCacheContext
  insertLba : Bool

/-- Ask the cache for one pair of a batch. A remembered address is taken, unless
an earlier pair of the batch has it. -/
def batchCached (store : NvmKvStore) (poolId : UInt32) (pair : NvmKvIovec) (state : BatchState) :
    StoreM (Except NvmErrorCode BatchCached) :=
  if 0 < store.cacheSize then do
    let (found, context) ← askCacheGet pair.key poolId
    if found then
      if !pair.replace && !context.expired then
        pure (.error .objectExists)
      else if context.contextState = .cacheEntryFound then
        match state.lbaList.lookup context.contextEntry.lba with
        | none =>
            let wait ← insertEntry context.contextEntry.lba
            if wait then
              let _ ← deleteLbaFromSafeList context.contextEntry.lba
              pure (.ok ⟨false, .zero, state.insertLba⟩)
            else
              pure (.ok ⟨true, context, true⟩)
        | some chosenKey => pure (.ok ⟨chosenKey = pair.key, context, state.insertLba⟩)
      else
        pure (.ok ⟨false, context, state.insertLba⟩)
    else
      pure (.ok ⟨false, context, state.insertLba⟩)
  else
    pure (.ok ⟨false, .zero, state.insertLba⟩)

/-- The address of one pair of a batch. -/
def batchLba (store : NvmKvStore) (poolId : UInt32) (pair : NvmKvIovec) (cached : BatchCached)
    (buf : Region) (lbaList : LbaList) : StoreM GenLba :=
  if cached.existsInCache then
    let entry := cached.context.contextEntry
    pure ⟨.ok (), if pair.valueLen < entry.valueLen then entry.valueLen else 0, entry.lba,
      cached.insertLba, buf⟩
  else
    kvGenLba store poolId pair buf cached.insertLba (some lbaList)

/-- The part of the loop after the address of a pair is known. -/
def batchPrepare (store : NvmKvStore) (poolId : UInt32) (pair : NvmKvIovec) (layout : WriteLayout)
    (placed : GenLba) (context : NvmKvCacheContext) (state : BatchState) :
    StoreM (Except NvmErrorCode Unit × BatchState) := do
  let state := { state with lbaList := state.lbaList.insert placed.keyHashVal pair.key }
  match kvProcessForTrim store.capabilities pair.valueLen placed.trimLen placed.keyHashVal with
  | .error code => pure (.error code, state)
  | .ok trims =>
      let state :=
        { state with
          iovecTrm := storeIovec state.iovecTrm state.idxTrm trims
          idxTrm := state.idxTrm + trims.length }
      if store.capabilities.nvmMaxNumIovs / 2 < state.idxTrm then
        pure (.error .io, state)
      else
        let (written, absExpiry) ← kvProcessForWrite store.capabilities poolId pair layout
          placed.buf (putExpiry store pair) placed.keyHashVal
        pure (.ok (),
          { state with
            iovecWrt := storeIovec state.iovecWrt state.idxWrt written
            idxWrt := state.idxWrt + layout.iovCount
            puts := state.puts ++ [⟨pair.key, poolId, pair.valueLen, absExpiry, pair.genCount,
              placed.keyHashVal, context⟩] })

/-- One round of the loop over the pairs of a batch. -/
def batchPair (store : NvmKvStore) (poolId : UInt32) (pair : NvmKvIovec) (buf : PoolBuf)
    (state : BatchState) : StoreM (Except NvmErrorCode Unit × BatchState) := do
  if !kvValidateKey pair.key || !kvValidateValue store false pair.valueLen then
    pure (.error .invalidInput, state)
  else
    match ← batchCached store poolId pair state with
    | .error code => pure (.error code, state)
    | .ok cached =>
        let state := { state with insertLba := cached.insertLba }
        match kvAllocForWrite store.capabilities pair.key.length pair.value pair.valueLen buf with
        | .error code => pure (.error code, state)
        | .ok (layout, buf) =>
            let state :=
              { state with finalIovCount := state.finalIovCount + layout.iovCount }
            if store.capabilities.nvmMaxNumIovs < state.finalIovCount then
              pure (.error .io, state)
            else
              let placed ← batchLba store poolId pair cached buf state.lbaList
              let state := { state with insertLba := placed.insertLba }
              match placed.retCode with
              | .error code => pure (.error code, state)
              | .ok () => batchPrepare store poolId pair layout placed cached.context state

/-- The loop over the pairs of a batch, with the number of the next one. -/
def batchPairs (store : NvmKvStore) (poolId : UInt32) (buf : Nat → PoolBuf) :
    Nat → List NvmKvIovec → BatchState → StoreM (Except NvmErrorCode Unit × BatchState)
  | _, [], state => pure (.ok (), state)
  | i, pair :: rest, state => do
      match ← batchPair store poolId pair (buf i) state with
      | (.error code, state) => pure (.error code, state)
      | (.ok (), state) => batchPairs store poolId buf (i + 1) rest state

/-- The batches of trims and writes. Both go in one batch when they fit. The number
of trims has then grown by that of the writes when it is compared again. -/
def batchWrite (store : NvmKvStore) (state : BatchState) : StoreM (Except NvmErrorCode Unit) := do
  let maxNumIovs := store.capabilities.nvmMaxNumIovs
  let writes := firstIovecs state.iovecWrt state.idxWrt
  if state.idxTrm = 0 then
    nvmWritev writes
  else
    let trims := firstIovecs state.iovecTrm state.idxTrm
    let clubbed := if state.idxWrt + state.idxTrm ≤ maxNumIovs then trims ++ writes else trims
    match ← nvmWritev clubbed with
    | .error code => pure (.error code)
    | .ok () =>
        if maxNumIovs < state.idxWrt + clubbed.length then nvmWritev writes else pure (.ok ())

/-- The end of a batch put after all pairs are prepared. -/
def batchFinish (store : NvmKvStore) (state : BatchState) : StoreM (Except NvmErrorCode Unit) := do
  match ← batchWrite store state with
  | .error code => pure (.error code)
  | .ok () =>
      if 0 < store.cacheSize then
        askCachePuts state.puts
        pure (.ok ())
      else
        pure (.ok ())

/-- Remove addresses from the safe list. -/
def deleteLbas : List Nat → StoreM Unit
  | [] => pure ()
  | lba :: rest => do
      let _ ← deleteLbaFromSafeList lba
      deleteLbas rest

/-- Release the addresses of a batch put, if the flag is set. -/
def batchRelease (state : BatchState) : StoreM Unit :=
  if state.insertLba then deleteLbas state.lbaList.lbas else pure ()

/-- Put several pairs in one batch (`kv_batch_put`). -/
def kvBatchPut (store : NvmKvStore) (poolId : UInt32) (kvIov : List NvmKvIovec)
    (allocation : BatchAllocation) : StoreM (Except NvmErrorCode Unit) := do
  if !(← kvValidatePoolId poolId) || decide (kvIov = []) then
    pure (.error .invalidInput)
  else if store.capabilities.nvmMaxNumIovs / 2 < kvIov.length then
    pure (.error .invalidInput)
  else
    match allocation.iovec with
    | none => pure (.error .outOfMemory)
    | some (iovecTrm, iovecWrt) =>
        match ← batchPairs store poolId allocation.buf 0 kvIov (.initial iovecTrm iovecWrt) with
        | (.error code, state) =>
            batchRelease state
            pure (.error code)
        | (.ok (), state) =>
            let retCode ← batchFinish store state
            batchRelease state
            pure retCode

/-- Insert addresses into the safe list one after the other. -/
def insertEntries : List Nat → StoreM Unit
  | [] => pure ()
  | lba :: rest => do
      let _ ← insertEntry lba
      insertEntries rest

/-- Trim vectors under the protection of the safe list, and remove their addresses
from the cache (`batch_delete_sync`). -/
def NvmKvStore.batchDeleteSync (store : NvmKvStore) (iovec : List NvmIovec)
    (deleteFromCache : Bool) :
    StoreM (Except NvmErrorCode Unit) := do
  let lbas := iovec.map (·.iovLba)
  insertEntries lbas
  let retCode ← nvmWritev iovec
  if deleteFromCache = true ∧ 0 < store.cacheSize then
    askCacheDeleteLbas lbas
    deleteLbas lbas
    pure retCode
  else
    deleteLbas lbas
    pure retCode

end Nvmkv
