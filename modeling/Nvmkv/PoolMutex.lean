import Nvmkv.PoolTags

/-!
# The mutex of the bitmaps

Here the operations of the pool manager take and release the mutex themselves, around
the work that the operations without it do. Taking a mutex that is held waits, and since
the calls of a sequence follow each other nobody is left to release it: the run has no
result.

Every operation releases the mutex on its way out but one: clearing the pools of a
bitmap returns at once when its write fails. The calls of a sequence all return with the
mutex free exactly when there is no such call among them.
-/

namespace Nvmkv

/-- What the operations work on. -/
abbrev PoolMachine := StateT (NvmKvPoolMgr × PoolMedia) Option

namespace PoolMachine

/-- `pthread_mutex_lock` of the mutex of the bitmaps. -/
def lockMutex : PoolMachine Unit := do
  let (mgr, media) ← get
  if mgr.mutexHeld then
    failure
  set ({ mgr with mutexHeld := true }, media)

/-- `pthread_mutex_unlock`. -/
def unlockMutex : PoolMachine Unit :=
  modify fun (mgr, media) => ({ mgr with mutexHeld := false }, media)

/-- Work on the manager and the media between taking and releasing the mutex. -/
def underMutex {α : Type} (work : NvmKvPoolMgr → PoolMedia → α × NvmKvPoolMgr × PoolMedia) :
    PoolMachine α := do
  lockMutex
  let (mgr, media) ← get
  let (result, mgr, media) := work mgr media
  set (mgr, media)
  unlockMutex
  return result

variable (store : NvmKvStore)

/-- `create_pool`. -/
def createPool (poolTag : Option NvmKvPoolTag) (written : Bool) :
    PoolMachine (Except NvmErrorCode Nat) :=
  underMutex fun mgr media => mgr.createPool store poolTag written media

/-- `valid_poolid`. -/
def validPoolid (poolId : UInt32) : PoolMachine Bool :=
  if poolId = defaultPoolId then
    return true
  else
    underMutex fun mgr media => (bitmapTest mgr.inUse poolId.toNat, mgr, media)

/-- `pool_in_del`. -/
def poolInDel (poolId : UInt32) : PoolMachine Bool :=
  if store.maxPools ≠ 0 then
    underMutex fun mgr media =>
      (bitmapTest mgr.inUse poolId.toNat && bitmapTest mgr.deleted poolId.toNat, mgr, media)
  else
    return false

/-- `check_pool_status`. -/
def checkPoolStatus (poolId : UInt32) : PoolMachine PoolStatus := do
  if 2 ^ 31 ≤ poolId.toNat ∨ nvmKvMaxPools ≤ poolId.toNat then
    return .poolIsInvalid
  let isPoolInDel ← poolInDel store poolId
  let isValidPoolid ← validPoolid poolId
  if isValidPoolid ∧ ¬ isPoolInDel then
    return .poolInUse
  else if isPoolInDel then
    return .poolDeletionInProgress
  else
    return .poolNotInUse

/-- `delete_pool`. -/
def deletePool (poolId : UInt32) (written : Bool) : PoolMachine (Except NvmErrorCode Unit) := do
  if poolId ≠ poolIdAll then
    let poolIdStatus ← checkPoolStatus store poolId
    if poolIdStatus = .poolIsInvalid ∨ poolIdStatus = .poolNotInUse then
      return .error .invalidInput
    if poolIdStatus = .poolDeletionInProgress then
      return .ok ()
  underMutex fun mgr media => mgr.deletePoolLocked store poolId written media

/-- `has_pools_to_delete`. -/
def hasPoolsToDelete : PoolMachine Bool :=
  underMutex fun mgr media => ((bitmapFfs mgr.deleted store.maxPools).isSome, mgr, media)

/-- `get_pool_deletion_bitmap`, for which memory is allocated first. -/
def getPoolDeletionBitmap (allocated : Bool) :
    PoolMachine (Except NvmErrorCode (KvBitmap × Bool)) := do
  if ¬ allocated then
    return .error .outOfMemory
  underMutex fun mgr media => (.ok (mgr.getPoolDeletionBitmap store), mgr, media)

/-- `clear_pool_bitmaps` of a bitmap, which returns early when its write fails. -/
def clearPoolBitmaps (clearPoolBitmap : KvBitmap) (written : Bool) :
    PoolMachine (Except NvmErrorCode Unit) := do
  lockMutex
  let (mgr, media) ← get
  let (retCode, mgr, media) := mgr.clearPoolBitmaps store clearPoolBitmap written media
  set (mgr, media)
  match retCode with
  | .error code => return .error code
  | .ok () =>
      unlockMutex
      return .ok ()

/-- `clear_pool_bitmaps` of a pool id. -/
def clearPoolBitmap (poolId : Nat) (written : Bool) : PoolMachine (Except NvmErrorCode Unit) :=
  underMutex fun mgr media => mgr.clearPoolBitmap store poolId written media

end PoolMachine

/-- A call of the manager, with the outcome of its write or of its allocation. -/
inductive PoolCall where
  | create (poolTag : Option NvmKvPoolTag) (written : Bool)
  | delete (poolId : UInt32) (written : Bool)
  | checkStatus (poolId : UInt32)
  | hasPools
  | deletionBitmap (allocated : Bool)
  | clearBitmap (clearPoolBitmap : KvBitmap) (written : Bool)
  | clearId (poolId : Nat) (written : Bool)

/-- The manager and the media after a call, if it returns. -/
def PoolCall.run (store : NvmKvStore) (state : NvmKvPoolMgr × PoolMedia) :
    PoolCall → Option (NvmKvPoolMgr × PoolMedia)
  | .create poolTag written => ((PoolMachine.createPool store poolTag written).run state).map (·.2)
  | .delete poolId written => ((PoolMachine.deletePool store poolId written).run state).map (·.2)
  | .checkStatus poolId => ((PoolMachine.checkPoolStatus store poolId).run state).map (·.2)
  | .hasPools => ((PoolMachine.hasPoolsToDelete store).run state).map (·.2)
  | .deletionBitmap allocated =>
      ((PoolMachine.getPoolDeletionBitmap store allocated).run state).map (·.2)
  | .clearBitmap clearPoolBitmap written =>
      ((PoolMachine.clearPoolBitmaps store clearPoolBitmap written).run state).map (·.2)
  | .clearId poolId written =>
      ((PoolMachine.clearPoolBitmap store poolId written).run state).map (·.2)

/-- The manager with the mutex taken. -/
def NvmKvPoolMgr.holding (mgr : NvmKvPoolMgr) : NvmKvPoolMgr := { mgr with mutexHeld := true }

/-- The manager with the mutex free. -/
def NvmKvPoolMgr.releasing (mgr : NvmKvPoolMgr) : NvmKvPoolMgr := { mgr with mutexHeld := false }

namespace PoolMachine

variable {store : NvmKvStore} {mgr : NvmKvPoolMgr} {media : PoolMedia} {α : Type}

/-- A free mutex is locked at once. -/
theorem lockMutex_run (free : mgr.mutexHeld = false) :
    lockMutex.run (mgr, media) = some ((), (mgr.holding, media)) := by
  simp [lockMutex, free, NvmKvPoolMgr.holding]

/-- Work under the free mutex is done with the mutex held, and leaves it free. -/
theorem underMutex_run (free : mgr.mutexHeld = false)
    (work : NvmKvPoolMgr → PoolMedia → α × NvmKvPoolMgr × PoolMedia) :
    (underMutex work).run (mgr, media) =
      some ((work mgr.holding media).1,
        ((work mgr.holding media).2.1.releasing, (work mgr.holding media).2.2)) := by
  rw [underMutex]
  simp only [StateT.run_bind, lockMutex_run free, Option.bind_eq_bind, Option.bind_some]
  rfl

/-- Locking and unlocking leave the manager as it was. -/
theorem releasing_holding (free : mgr.mutexHeld = false) : mgr.holding.releasing = mgr := by
  cases mgr
  cases free
  rfl

/-- A look at the bits under the mutex changes nothing. -/
theorem underMutex_look (free : mgr.mutexHeld = false) (look : NvmKvPoolMgr → α)
    (blind : look mgr.holding = look mgr) :
    (underMutex fun mgr media => (look mgr, mgr, media)).run (mgr, media) =
      some (look mgr, (mgr, media)) := by
  rw [underMutex_run free, blind, releasing_holding free]

/-- The mutex is free again behind the question whether a pool is to be deleted. -/
theorem poolInDel_run (free : mgr.mutexHeld = false) (poolId : UInt32) :
    (poolInDel store poolId).run (mgr, media) =
      some (bitmapTest mgr.inUse poolId.toNat && bitmapTest mgr.deleted poolId.toNat,
        (mgr, media)) := by
  rw [poolInDel, if_pos (Nat.ne_of_gt store.poolsPositive)]
  exact underMutex_look free (fun mgr => bitmapTest mgr.inUse poolId.toNat &&
    bitmapTest mgr.deleted poolId.toNat) rfl

/-- So it is behind the question whether an id is in use. -/
theorem validPoolid_run (free : mgr.mutexHeld = false) (poolId : UInt32) :
    (validPoolid poolId).run (mgr, media) =
      some (decide (poolId.toNat = 0) || bitmapTest mgr.inUse poolId.toNat, (mgr, media)) := by
  rw [validPoolid]
  by_cases default : poolId = defaultPoolId
  · rw [if_pos default, default]
    rfl
  · have other : poolId.toNat ≠ 0 := fun zero => default (UInt32.toNat_inj.mp zero)
    rw [if_neg default, decide_eq_false other, Bool.false_or]
    exact underMutex_look free (fun mgr => bitmapTest mgr.inUse poolId.toNat) rfl

/-- Checking the status of a pool takes the mutex twice and gives the status. -/
theorem checkPoolStatus_run (free : mgr.mutexHeld = false) (poolId : UInt32) :
    (checkPoolStatus store poolId).run (mgr, media) =
      some (mgr.checkPoolStatus poolId, (mgr, media)) := by
  rw [checkPoolStatus, NvmKvPoolMgr.checkPoolStatus, poolStatus]
  by_cases invalid : 2 ^ 31 ≤ poolId.toNat ∨ nvmKvMaxPools ≤ poolId.toNat
  · simp only [if_pos invalid]
    rfl
  · simp only [if_neg invalid]
    simp only [StateT.run_bind, poolInDel_run free, validPoolid_run free, Option.bind_eq_bind,
      Option.bind_some, Bool.not_eq_true', Bool.and_eq_true, Bool.not_eq_true]
    split
    · rfl
    · split
      · rfl
      · rfl

/-- Deleting with the mutex does what deleting without it does. -/
theorem deletePool_run (free : mgr.mutexHeld = false) (poolId : UInt32) (written : Bool) :
    (deletePool store poolId written).run (mgr, media) =
      some ((mgr.holding.deletePool store poolId written media).1,
        ((mgr.holding.deletePool store poolId written media).2.1.releasing,
          (mgr.holding.deletePool store poolId written media).2.2)) := by
  have status : mgr.holding.checkPoolStatus poolId = mgr.checkPoolStatus poolId := rfl
  rw [deletePool, NvmKvPoolMgr.deletePool, status]
  by_cases all : poolId = poolIdAll
  · simp only [all, ne_eq, not_true_eq_false, if_false, false_and]
    exact underMutex_run free _
  · simp only [ne_eq, all, not_false_eq_true, if_true, true_and, StateT.run_bind,
      checkPoolStatus_run free, Option.bind_eq_bind, Option.bind_some]
    split
    · rw [releasing_holding free]
      rfl
    · split
      · rw [releasing_holding free]
        rfl
      · exact underMutex_run free _

/-- The deletion bits are copied under the mutex, if there is memory for the copy. -/
theorem getPoolDeletionBitmap_run (free : mgr.mutexHeld = false) (allocated : Bool) :
    ∃ result, (getPoolDeletionBitmap store allocated).run (mgr, media) =
      some (result, (mgr, media)) := by
  cases allocated with
  | true =>
    refine ⟨.ok (mgr.getPoolDeletionBitmap store), ?_⟩
    have looked := @underMutex_look mgr media (Except NvmErrorCode (KvBitmap × Bool)) free
      (fun mgr => .ok (mgr.getPoolDeletionBitmap store)) rfl
    exact looked
  | false => exact ⟨.error .outOfMemory, rfl⟩

/-- Clearing the pools of a bitmap leaves the mutex as the work left it when the write
failed, and free otherwise. -/
theorem clearPoolBitmaps_run (free : mgr.mutexHeld = false) (clearPoolBitmap : KvBitmap)
    (written : Bool) :
    ∃ result after, (clearPoolBitmaps store clearPoolBitmap written).run (mgr, media) =
      some (result, after) ∧ after.1.mutexHeld = !written := by
  rw [clearPoolBitmaps]
  simp only [StateT.run_bind, lockMutex_run free, Option.bind_eq_bind, Option.bind_some]
  cases written with
  | true => exact ⟨_, _, rfl, rfl⟩
  | false => exact ⟨_, _, rfl, rfl⟩

end PoolMachine

/-- The one exit that keeps the mutex: the write of a cleared bitmap fails. -/
def PoolCall.KeepsMutex : PoolCall → Prop
  | .clearBitmap _ written => written = false
  | _ => False

/-- A call that finds the mutex free returns, and it returns with the mutex free unless
it takes the exit that keeps it. -/
theorem PoolCall.run_free {store : NvmKvStore} {mgr : NvmKvPoolMgr} (media : PoolMedia)
    (free : mgr.mutexHeld = false) (call : PoolCall) :
    ∃ after, call.run store (mgr, media) = some after ∧
      (after.1.mutexHeld = false ↔ ¬ call.KeepsMutex) := by
  have released : ∀ {α : Type} {machine : PoolMachine α} {result : α}
      {after : NvmKvPoolMgr × PoolMedia}, machine.run (mgr, media) = some (result, after) →
      after.1.mutexHeld = false → ∃ after, (machine.run (mgr, media)).map (·.2) = some after ∧
        (after.1.mutexHeld = false ↔ ¬ False) := by
    intro α machine result after returned freeAfter
    exact ⟨after, by rw [returned]; rfl, iff_of_true freeAfter not_false⟩
  cases call with
  | create poolTag written => exact released (PoolMachine.underMutex_run free _) rfl
  | delete poolId written => exact released (PoolMachine.deletePool_run free poolId written) rfl
  | checkStatus poolId => exact released (PoolMachine.checkPoolStatus_run free poolId) free
  | hasPools => exact released (PoolMachine.underMutex_run free _) rfl
  | deletionBitmap allocated =>
    obtain ⟨result, returned⟩ :=
      @PoolMachine.getPoolDeletionBitmap_run store mgr media free allocated
    exact released returned free
  | clearBitmap clearPoolBitmap written =>
    obtain ⟨result, after, returned, held⟩ :=
      @PoolMachine.clearPoolBitmaps_run store mgr media free clearPoolBitmap written
    refine ⟨after, by rw [PoolCall.run, returned]; rfl, ?_⟩
    rw [held]
    cases written with
    | true => simp [PoolCall.KeepsMutex]
    | false => simp [PoolCall.KeepsMutex]
  | clearId poolId written => exact released (PoolMachine.underMutex_run free _) rfl

/-- The calls of a sequence, one after the other. A call that waits for a mutex nobody
releases ends the run without a result. -/
def runCalls (store : NvmKvStore) (state : NvmKvPoolMgr × PoolMedia) (calls : List PoolCall) :
    Option (NvmKvPoolMgr × PoolMedia) :=
  calls.foldlM (PoolCall.run store) state

/-- Whatever becomes of the writes: all calls of a sequence return with the mutex free
exactly when none of them is a clearing of a bitmap whose write fails. -/
theorem mutex_released_iff (store : NvmKvStore) (mgr : NvmKvPoolMgr) (media : PoolMedia)
    (free : mgr.mutexHeld = false) (calls : List PoolCall) :
    (∀ before, before <+: calls → ∃ after, runCalls store (mgr, media) before = some after ∧
        after.1.mutexHeld = false) ↔
      ∀ call ∈ calls, ¬ call.KeepsMutex := by
  induction calls generalizing mgr media with
  | nil =>
    refine iff_of_true ?_ (by simp)
    intro before reached
    rw [List.prefix_nil.mp reached]
    exact ⟨_, rfl, free⟩
  | cons call calls inductionHypothesis =>
    obtain ⟨⟨next, nextMedia⟩, returned, released⟩ := @PoolCall.run_free store mgr media free call
    have continued : ∀ before, runCalls store (mgr, media) (call :: before) =
        runCalls store (next, nextMedia) before := by
      intro before
      rw [runCalls, List.foldlM_cons, returned]
      rfl
    rw [List.forall_mem_cons, ← released]
    constructor
    · intro throughout
      have nextFree : next.mutexHeld = false := by
        obtain ⟨after, reached, afterFree⟩ := throughout [call] (by simp)
        rw [continued] at reached
        cases reached
        exact afterFree
      refine ⟨nextFree, (inductionHypothesis next nextMedia nextFree).mp ?_⟩
      intro before reached
      obtain ⟨after, ran, afterFree⟩ := throughout (call :: before) (by simpa using reached)
      rw [continued] at ran
      exact ⟨after, ran, afterFree⟩
    · rintro ⟨nextFree, releasing⟩ before reached
      cases before with
      | nil => exact ⟨_, rfl, free⟩
      | cons first rest =>
        obtain ⟨same, further⟩ := List.cons_prefix_cons.mp reached
        subst same
        rw [continued]
        exact (inductionHypothesis next nextMedia nextFree).mpr releasing rest further

/-- The calls of a new store are a creation that fails and a clearing that fails. -/
theorem mutex_released_new :
    (∀ before, before <+: [PoolCall.create none false, .clearId 1 false] →
        ∃ after, runCalls NvmKvStore.terabyteStore ((newPools .zero).mgr, (newPools .zero).media)
          before = some after ∧ after.1.mutexHeld = false) ↔
      ∀ call ∈ [PoolCall.create none false, .clearId 1 false], ¬ call.KeepsMutex :=
  mutex_released_iff NvmKvStore.terabyteStore (newPools .zero).mgr (newPools .zero).media rfl _

/-- After a failed write of a cleared bitmap the next call waits forever. -/
theorem mutex_kept :
    ¬ ∀ (store : NvmKvStore) (mgr : NvmKvPoolMgr) (media : PoolMedia),
      mgr.mutexHeld = false → ∀ calls, ∃ after, runCalls store (mgr, media) calls = some after ∧
        after.1.mutexHeld = false := by
  intro promised
  obtain ⟨after, returned, _⟩ := promised NvmKvStore.terabyteStore (newPools .zero).mgr
    (newPools .zero).media rfl [.clearBitmap .zero false, .hasPools]
  have waits : (runCalls NvmKvStore.terabyteStore
      ((newPools .zero).mgr, (newPools .zero).media) [.clearBitmap .zero false, .hasPools]).isSome =
      false := by rfl
  rw [returned] at waits
  cases waits

end Nvmkv
