import Nvmkv.BatchCalls
import Nvmkv.ReadPath

/-!
# Calls of a store in interleavings

The calls that write to a store or trim, as threads make them: `kv_put`,
`kv_batch_put` and `kv_delete` by the threads of the application, and
`batch_delete_sync` by the threads that delete expired pairs. A system of calls
has one thread for each of them, so that any number of calls is in any order, one
after the other or interleaved.
-/

namespace Nvmkv

/-- A call with its arguments and the memory it gets. -/
inductive StoreCall where
  | kvPut (poolId : UInt32) (pair : NvmKvIovec) (allocation : Allocation)
  | kvBatchPut (poolId : UInt32) (kvIov : List NvmKvIovec) (allocation : BatchAllocation)
  | kvDelete (poolId : UInt32) (key : List UInt8) (buf : Option Region) (allocated : Bool)
  | batchDeleteSync (iovec : List NvmIovec) (deleteFromCache : Bool)

/-- The program of a call, with its result dropped. -/
def StoreCall.program (store : NvmKvStore) : StoreCall → StoreM Unit
  | .kvPut poolId pair allocation => do
      let _ ← Nvmkv.kvPut store poolId pair allocation
      pure ()
  | .kvBatchPut poolId kvIov allocation => do
      let _ ← Nvmkv.kvBatchPut store poolId kvIov allocation
      pure ()
  | .kvDelete poolId key buf allocated => do
      let _ ← Nvmkv.kvDelete store poolId key buf allocated
      pure ()
  | .batchDeleteSync iovec deleteFromCache => do
      let _ ← store.batchDeleteSync iovec deleteFromCache
      pure ()

/-- A configuration of calls over a store. -/
abbrev StoreConfig (ι : Type) := Config StoreOp StoreRes Unit (StoreState ι) ι

/-- All calls are about to start. -/
def startCalls {ι : Type} (store : NvmKvStore) (state : StoreState ι)
    (calls : ι → StoreCall) : StoreConfig ι :=
  ⟨state, fun thread => (calls thread).program store⟩

end Nvmkv
