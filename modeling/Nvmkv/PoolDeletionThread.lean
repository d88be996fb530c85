import Nvmkv.BufferedCalls
import Nvmkv.ReplaceRoundTrip

/-!
# The deletion thread among other calls

`start_thread` of the pool deletion manager waits until pools are marked, copies the
deletion bits, deletes the pools of its copy and waits again. Meanwhile clients put
pairs, and create and delete pools. There is one such thread; a thread here is named by an
option of a client, and no client is the deletion thread.

The machine is that of the store with its pool manager, with the waiting of the thread, the
flag that it is at work, and the passing of time. It records for every sector the put whose
bytes are there, and for every slot of the cache the put that filled it; how often each pool
id was given out, and how often it had been when a thread last validated one; what the thread copied
and which of those pools it has not cleared since; the ranges that the device listed for it
and that it has neither trimmed nor left since; and the pools whose entries of the cache a
client has still to empty. No program reads these records.
-/

namespace Nvmkv

/-- The calls of clients and of the deletion thread. -/
inductive DeletionOp where
  | system (op : SystemOp)
  | awaitPoolsToDelete
  | setPoolDelStatus (mode : Bool)
  | passTime (seconds : Nat)

/-- The answers. -/
abbrev DeletionRes : DeletionOp → Type
  | .system op => SystemRes op
  | .awaitPoolsToDelete => Unit
  | .setPoolDelStatus _ => Unit
  | .passTime _ => Unit

/-- A program among the calls of the deletion thread. -/
abbrev DeletionM (α : Type) := Program DeletionOp DeletionRes α

namespace NvmKvPoolDelManager

/-- One call with its answer. -/
def ask (op : DeletionOp) : DeletionM (DeletionRes op) := Program.perform op

/-- A program of the store with its pool manager. -/
def onSystem {α : Type} (program : SystemM α) : DeletionM α :=
  program.lift DeletionOp.system fun _ answered => answered

/-- The memory of one round: whether there was some for the copy of the bits, and what a
pool id on the stack holds. -/
structure RoundMemory where
  allocated : Bool
  foundPoolId : Nat

/-- Rounds of the thread (`start_thread`). Without memory for the copy, a round goes on with
what the round before had copied. -/
def startThread (store : NvmKvStore) (iter : LogicalIterRanges) :
    List RoundMemory → (poolsToDelete : KvBitmap) → (deleteAllPools : Bool) → DeletionM Unit
  | [], _, _ => pure ()
  | memory :: rest, poolsToDelete, deleteAllPools => do
      let () ← ask .awaitPoolsToDelete
      let (poolsToDelete, deleteAllPools) ←
        if memory.allocated then onSystem getPoolDeletionBitmap
        else pure (poolsToDelete, deleteAllPools)
      let () ← ask (.setPoolDelStatus true)
      let _ ← onSystem (startPoolDelete store iter poolsToDelete deleteAllPools
        memory.foundPoolId)
      let () ← ask (.setPoolDelStatus false)
      startThread store iter rest poolsToDelete deleteAllPools

end NvmKvPoolDelManager

/-- The deletion thread: its iterator, its rounds and the bitmap that it starts with. -/
structure PoolDelThread where
  iter : LogicalIterRanges
  rounds : List NvmKvPoolDelManager.RoundMemory
  poolsToDelete : KvBitmap

/-- A call of a client, or the clock. -/
inductive DeletionCall where
  | kvPut (poolId : UInt32) (pair : NvmKvIovec) (allocation : Allocation)
  | kvPoolCreate (poolTag : Option NvmKvPoolTag)
  | kvPoolDelete (poolId : UInt32)
  | passTimes (seconds : List Nat)

namespace DeletionCall

/-- The clock of the host goes on. -/
def passing : List Nat → DeletionM Unit
  | [] => pure ()
  | seconds :: rest => do
      let () ← NvmKvPoolDelManager.ask (.passTime seconds)
      passing rest

/-- The program of a call, with its result dropped. -/
def program (store : NvmKvStore) : DeletionCall → DeletionM Unit
  | .kvPut poolId pair allocation => do
      let _ ← NvmKvPoolDelManager.onSystem (liftStore (Nvmkv.kvPut store poolId pair allocation))
      pure ()
  | .kvPoolCreate poolTag => do
      let _ ← NvmKvPoolDelManager.onSystem (askSystem (.createPool poolTag))
      pure ()
  | .kvPoolDelete poolId => do
      let _ ← NvmKvPoolDelManager.onSystem (NvmKvStoreMgr.kvPoolDelete store poolId)
      pure ()
  | .passTimes seconds => passing seconds

end DeletionCall

/-- A pair that a put wrote: its address, its pool, and how often the id of the pool had been
given out when the put validated it. -/
structure PoolPair where
  lba : Nat
  poolId : Nat
  generation : Nat

/-- A round of the deletion thread: which pools it copied and how often their ids had been
given out by then, which of them it has not cleared yet, whether it deletes all pools at once,
and whether it is at work (`m_pool_del_status`). -/
structure DeletionRound where
  copied : Nat → Bool
  copiedGeneration : Nat → Nat
  pending : Nat → Bool
  deletesAll : Bool
  poolDelStatus : Bool

/-- The state with the records. -/
structure DeletionState (ι : Type) where
  system : SystemState (Option ι)
  pairs : Nat → Option PoolPair
  cached : Nat → Nat
  generation : Nat → Nat
  validated : Option ι → Nat → Nat
  emptying : Option ι → Option UInt32
  round : DeletionRound
  listed : List NvmBlockRange

variable {ι : Type}

/-- The pair that a thread writes with a batch: that of the put, at the address of the first
sector written. -/
def poolPairOf (calls : ι → DeletionCall) (generation : Nat → Nat) (iovec : List NvmIovec) :
    Option ι → Option PoolPair
  | none => none
  | some client =>
      match calls client with
      | .kvPut poolId _ _ =>
          (iovec.find? (·.iovOpcode = .write)).map fun vector =>
            ⟨vector.iovLba, poolId.toNat, generation poolId.toNat⟩
      | _ => none

variable [DecidableEq ι]

namespace DeletionState

variable (store : NvmKvStore) (calls : ι → DeletionCall) (thread : Option ι)
  (state : DeletionState ι)

/-- The records after a call on the store was answered. -/
def notedStore : StoreOp → SystemState (Option ι) → DeletionState ι
  | .checkPoolStatus _, after =>
      { state with
        system := after
        validated := Function.update state.validated thread state.generation }
  | .batchAtomic iovec, after =>
      { state with
        system := after
        pairs := fun lba =>
          if BatchCovers store iovec lba then
            if (after.store.media lba).isSome then
              poolPairOf calls (state.validated thread) iovec thread
            else none
          else state.pairs lba
        listed :=
          if thread = none then
            state.listed.filter fun range => ¬BatchCovers store iovec range.startLba
          else state.listed }
  | .cachePut _ poolId _ _ _ _ _, after =>
      { state with
        system := after
        cached := fun slot =>
          if after.store.cache slot = state.system.store.cache slot then state.cached slot
          else state.validated thread poolId.toNat }
  | _, after => { state with system := after }

/-- The records after a call on the store with its pool manager was answered. -/
def noted : (op : SystemOp) → SystemRes op → SystemState (Option ι) → DeletionState ι
  | .store op, _, after => state.notedStore store calls thread op after
  | .createPool _, _, after =>
      { state with
        system := after
        generation := fun poolId =>
          if bitmapTest after.mgr.inUse poolId ∧ ¬bitmapTest state.system.mgr.inUse poolId then
            state.generation poolId + 1
          else state.generation poolId }
  | .deletePoolLocked poolId, _, after =>
      { state with
        system := after
        emptying := Function.update state.emptying thread
          (if 0 < store.cacheSize then some poolId else none) }
  | .cacheDeletePools _, _, after =>
      { state with
        system := after
        emptying := Function.update state.emptying thread none }
  | .getPoolDeletionBitmap, (poolsToDelete, deleteAllPools), after =>
      { state with
        system := after
        round :=
          { state.round with
            copied := bitmapTest poolsToDelete
            copiedGeneration := state.generation
            pending := bitmapTest poolsToDelete
            deletesAll := deleteAllPools }
        listed := [] }
  | .logicalRangeIterator _ _ _ _, found, after =>
      { state with system := after, listed := state.listed ++ (found.map (·.1)).getD [] }
  | .clearPoolBitmaps clearPoolBitmap, _, after =>
      { state with
        system := after
        round :=
          { state.round with
            pending := fun poolId =>
              state.round.pending poolId && !bitmapTest clearPoolBitmap poolId }
        listed := [] }
  | .clearPoolBitmap poolId, _, after =>
      { state with
        system := after
        round :=
          { state.round with pending := Function.update state.round.pending poolId false }
        listed := [] }

end DeletionState

/-- Answer one call of a thread. The waiting of the deletion thread ends when a pool is
marked. -/
def answerDeletion (store : NvmKvStore) (calls : ι → DeletionCall) (thread : Option ι) :
    (op : DeletionOp) → DeletionState ι → Option (DeletionRes op × DeletionState ι)
  | .system op, state =>
      (answerSystem store thread op state.system).map fun answered =>
        (answered.1, state.noted store calls thread op answered.1 answered.2)
  | .awaitPoolsToDelete, state =>
      if state.system.mgr.mutexHeld then none
      else if (bitmapFfs state.system.mgr.deleted store.maxPools).isSome then some ((), state)
      else none
  | .setPoolDelStatus mode, state =>
      some ((),
        { state with
          round := { state.round with poolDelStatus := mode }
          listed := if mode then state.listed else [] })
  | .passTime seconds, state =>
      some ((),
        { state with
          system :=
            { state.system with
              store :=
                { state.system.store with clock := state.system.store.clock + seconds } } })

/-- A configuration of the deletion thread and of calls of clients. -/
abbrev DeletionConfig (ι : Type) := Config DeletionOp DeletionRes Unit (DeletionState ι) (Option ι)

/-- The deletion thread and all calls are about to start. -/
def startDeletion {ι : Type} (store : NvmKvStore) (state : DeletionState ι)
    (thread : PoolDelThread) (calls : ι → DeletionCall) : DeletionConfig ι :=
  ⟨state, fun
    | none => NvmKvPoolDelManager.startThread store thread.iter thread.rounds
        thread.poolsToDelete false
    | some client => (calls client).program store⟩

end Nvmkv
