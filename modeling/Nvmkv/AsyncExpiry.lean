import Nvmkv.LiftedPrograms
import Nvmkv.ReadPath
import Nvmkv.StoreCalls
import Nvmkv.StoredPairs

/-!
# Asynchronous expiry

A reading call that finds an expired pair queues the address of the pair, with the
length that its header tells. The queue is made of blocks, and a worker takes a
block once it is full: `start_thread` hands its vectors to `batch_delete_sync`, which
trims them without looking at what is stored there by then.

The machine is that of the store with two more calls, the taking of a full block and
the passing of time. It records for every sector the put whose bytes are there, with
the expiry time of that put, when each call last asked for the time, and the block
that each worker is about to trim. No program reads these records.
-/

namespace Nvmkv

/-- The calls on a store with expiry. -/
inductive AsyncOp where
  | store (op : StoreOp)
  | popBlock
  | passTime (seconds : Nat)

/-- The answers. -/
abbrev AsyncRes : AsyncOp → Type
  | .store op => StoreRes op
  | .popBlock => List NvmIovec
  | .passTime _ => Unit

/-- A program over a store with expiry. -/
abbrev AsyncM (α : Type) := Program AsyncOp AsyncRes α

/-- One call with its answer. -/
def askAsync (op : AsyncOp) : AsyncM (AsyncRes op) := Program.perform op

/-- A program of the store. -/
def onStore {α : Type} (program : StoreM α) : AsyncM α :=
  program.lift AsyncOp.store fun _ answered => answered

/-- Rounds of a worker (`start_thread`): wait for a full block at the front of the queue,
take it, and trim it. -/
def startThread (store : NvmKvStore) : (rounds : Nat) → AsyncM Unit
  | 0 => pure ()
  | rounds + 1 => do
      let iovecEntry ← askAsync .popBlock
      let _ ← onStore (store.batchDeleteSync (iovecEntry.take store.capabilities.nvmMaxNumIovs)
        true)
      startThread store rounds

/-- The clock of the host goes on. -/
def passTimes : List Nat → AsyncM Unit
  | [] => pure ()
  | seconds :: rest => do
      let () ← askAsync (.passTime seconds)
      passTimes rest

/-- A call on a store with expiry, a worker, or the clock. -/
inductive AsyncCall where
  | kvGet (poolId : UInt32) (key : List UInt8) (value : Memory) (valueLen : Nat)
      (readExact : Bool) (buf : Option Region)
  | kvExists (poolId : UInt32) (key : List UInt8) (buf : Option Region)
  | kvPut (poolId : UInt32) (pair : NvmKvIovec) (allocation : Allocation)
  | startThread (rounds : Nat)
  | passTimes (seconds : List Nat)

/-- The program of a call, with its result dropped. -/
def AsyncCall.program (store : NvmKvStore) : AsyncCall → AsyncM Unit
  | .kvGet poolId key value valueLen readExact buf => do
      let _ ← onStore (Nvmkv.kvGet store poolId key value valueLen readExact buf)
      pure ()
  | .kvExists poolId key buf => do
      let _ ← onStore (Nvmkv.kvExists store poolId key buf)
      pure ()
  | .kvPut poolId pair allocation => do
      let _ ← onStore (Nvmkv.kvPut store poolId pair allocation)
      pure ()
  | .startThread rounds => Nvmkv.startThread store rounds
  | .passTimes seconds => Nvmkv.passTimes seconds

/-- A pair that a put wrote: its address, and its expiry time when it has one. The time
is that of the put and not what its header says. -/
structure StoredPut where
  lba : Nat
  expires : Option Nat

/-- The time of a put has passed, if it has one. -/
def StoredPut.Expired (put : StoredPut) (clock : Nat) : Prop :=
  ∃ time, put.expires = some time ∧ time < clock

/-- The store's state with the records. A worker that has no block has none to trim. -/
structure AsyncState (ι : Type) where
  store : StoreState ι
  asked : ι → Nat
  pairs : Nat → Option StoredPut
  popped : ι → List NvmIovec

/-- The pair that a call writes with a batch: that of the put, at the address of the
first sector written. -/
def AsyncCall.writes (store : NvmKvStore) (asked : Nat) (iovec : List NvmIovec) :
    AsyncCall → Option StoredPut
  | .kvPut _ pair _ => (iovec.find? (·.iovOpcode = .write)).map fun vector =>
      ⟨vector.iovLba,
        if putExpiry store pair = 0 then none else some (putExpiry store pair + asked)⟩
  | _ => none

variable {ι : Type} [DecidableEq ι]

/-- The records after a call on the store was answered. -/
def AsyncState.noted (store : NvmKvStore) (call : AsyncCall) (thread : ι) (op : StoreOp)
    (state : AsyncState ι) (after : StoreState ι) : AsyncState ι :=
  match op with
  | .time => { state with store := after, asked := Function.update state.asked thread after.clock }
  | .batchAtomic iovec =>
      { state with
        store := after
        pairs := fun lba =>
          if BatchCovers store iovec lba then
            if (after.media lba).isSome then call.writes store (state.asked thread) iovec else none
          else state.pairs lba
        popped := Function.update state.popped thread [] }
  | _ => { state with store := after }

/-- Answer one call of a thread. -/
def answerAsync (store : NvmKvStore) (calls : ι → AsyncCall) (thread : ι) :
    (op : AsyncOp) → AsyncState ι → Option (AsyncRes op × AsyncState ι)
  | .store op, state =>
      (answer store thread op state.store).map fun answered =>
        (answered.1, state.noted store (calls thread) thread op answered.2)
  | .popBlock, state =>
      match state.store.expiryQueue with
      | [] => none
      | block :: rest =>
          if block.length < store.capabilities.nvmMaxNumIovs then none
          else some (block,
            { state with
              store := { state.store with expiryQueue := rest }
              popped := Function.update state.popped thread block })
  | .passTime seconds, state =>
      some ((),
        { state with store := { state.store with clock := state.store.clock + seconds } })

/-- A configuration of calls over a store with expiry. -/
abbrev AsyncConfig (ι : Type) := Config AsyncOp AsyncRes Unit (AsyncState ι) ι

/-- All calls are about to start. -/
def startAsync {ι : Type} (store : NvmKvStore) (state : AsyncState ι) (calls : ι → AsyncCall) :
    AsyncConfig ι :=
  ⟨state, fun thread => (calls thread).program store⟩

/-- The records agree with the device: the sector at the address of a pair has the
header of the pair, with its expiry time. -/
def PairsRecorded {ι : Type} (state : AsyncState ι) : Prop :=
  ∀ lba put, state.pairs lba = some put → put.lba = lba →
    ∃ sector, state.store.media lba = some sector ∧
      (readHeader sector).expiry = put.expires.getD 0

section Conditions

variable {ι : Type} (store : NvmKvStore)

/-- Every put with bytes in a sector that some vectors cover has expired. -/
def SectorsExpired (state : AsyncState ι) (iovec : List NvmIovec) : Prop :=
  ∀ lba put, BatchCovers store iovec lba → state.pairs lba = some put →
    put.Expired state.store.clock

/-- A sector is covered by vectors that are queued, or that a worker has taken and not
trimmed yet. -/
def AwaitsTrim (state : AsyncState ι) (lba : Nat) : Prop :=
  (∃ block ∈ state.store.expiryQueue, BatchCovers store block lba) ∨
    ∃ thread, BatchCovers store (state.popped thread) lba

/-- The header at an address is still the one that was read, and the sectors that its
pair takes hold no other pair. -/
structure StillStored (state : AsyncState ι) (keyLoc : Nat) (hdr : NvmKvHeader) : Prop where
  header : storedHeader store state.store.media keyLoc = hdr
  alone : ∀ lba put, Media.Covers store.sectorSize (expiryIovec store.sectorSize keyLoc hdr) lba →
    state.pairs lba = some put → state.pairs keyLoc = some put ∧ put.lba = keyLoc

/-- The condition on the steps of a call. -/
def AsyncCall.SparesLive (thread : ι) (op : AsyncOp) (state : AsyncState ι) : AsyncCall → Prop
  | .kvGet _ _ _ _ _ _ | .kvExists _ _ _ =>
      match op with
      | .store (.updateExpiryQueue keyLoc hdr) => StillStored store state keyLoc hdr
      | _ => True
  | .kvPut _ pair _ =>
      match op with
      | .store (.batchAtomic iovec) =>
          (∀ lba, BatchCovers store iovec lba → ¬AwaitsTrim store state lba) ∧
            (putExpiry store pair = 0 ∨ putExpiry store pair + state.asked thread < 2 ^ 32)
      | _ => True
  | _ => True

/-- A worker trims expired pairs only. -/
def AsyncCall.TrimsExpired (op : AsyncOp) (state : AsyncState ι) : AsyncCall → Prop
  | .startThread _ =>
      match op with
      | .store (.batchAtomic iovec) => SectorsExpired store state iovec
      | _ => True
  | _ => True

/-- No put announces more vectors than it fills. -/
def AsyncCall.VectorsFilled : AsyncCall → Prop
  | .kvPut _ pair _ =>
      Nvmkv.VectorsFilled store.capabilities pair.key.length pair.value pair.valueLen
  | _ => True

/-- What is between any two steps: queued vectors, and those taken by workers, cover
expired pairs only. -/
structure ExpiryInvariant (state : AsyncState ι) : Prop where
  recorded : PairsRecorded state
  queued : ∀ block ∈ state.store.expiryQueue, SectorsExpired store state block
  popped : ∀ thread, SectorsExpired store state (state.popped thread)

/-- What the threads owe each other. -/
def expiryDiscipline (calls : ι → AsyncCall) : Discipline AsyncOp (AsyncState ι) ι where
  invariant := ExpiryInvariant store
  rely := fun thread before after => after.asked thread = before.asked thread ∧
    after.popped thread = before.popped thread ∧ before.store.clock ≤ after.store.clock
  allowed := fun thread op state => (calls thread).SparesLive store thread op state
  checked := fun thread op state => (calls thread).TrimsExpired store op state

end Conditions

end Nvmkv
