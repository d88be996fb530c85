import Nvmkv.PoolBookkeeping
import Nvmkv.Programs

/-!
# The words that a status check reads

`check_pool_status` and its two helpers read words of the bitmaps in use and deleted. The
check refuses ids from the greatest number of pools that any store may have on, and the
bitmaps are as long as the pools of this store need: their bits are rounded up to words and
the bytes of these to sectors.

Here the check is a program whose calls are the reads of words, so that what it reads can be
compared with what was allocated, for every content of the memory. Run over the bitmaps of a
manager it gives the status of `checkPoolStatus`.
-/

namespace Nvmkv

/-- The two bitmaps of the manager (`m_bitmaps`). -/
inductive PoolBitmap where
  | inUse
  | deleted
  deriving DecidableEq

/-- The read of one word. -/
structure WordRead where
  bitmap : PoolBitmap
  word : Nat

/-- A program that reads words of the bitmaps. -/
abbrev BitmapReader (α : Type) := Program WordRead (fun _ => BitVec 32) α

/-- The bytes of a bitmap of `nbits` (`bitmap_alloc_aligned`). -/
def bitmapAllocAligned (nbits alignment : Nat) : Nat :=
  nvmKvRoundUptoBlk (round32 nbits / 8) alignment

namespace NvmKvStore

variable (store : NvmKvStore)

/-- The words allocated for each bitmap. -/
def bitmapWords : Nat := bitmapAllocAligned store.maxPools store.sectorSize / 4

end NvmKvStore

namespace BitmapReader

/-- `bitmap_test`. -/
def bitmapTest (bitmap : PoolBitmap) (index : Nat) : BitmapReader Bool := do
  let word ← Program.perform ⟨bitmap, index / 32⟩
  pure (word &&& bitMask index ≠ 0)

variable (store : NvmKvStore) (poolId : UInt32)

/-- `valid_poolid`. -/
def validPoolid : BitmapReader Bool :=
  if poolId = defaultPoolId then pure true else bitmapTest .inUse poolId.toNat

/-- `pool_in_del`. -/
def poolInDel : BitmapReader Bool :=
  if store.maxPools ≠ 0 then do
    if ← bitmapTest .inUse poolId.toNat then bitmapTest .deleted poolId.toNat else pure false
  else pure false

/-- `check_pool_status`. A negative id is one from `2 ^ 31` on. -/
def checkPoolStatus : BitmapReader PoolStatus :=
  if 2 ^ 31 ≤ poolId.toNat ∨ nvmKvMaxPools ≤ poolId.toNat then pure .poolIsInvalid
  else do
    let isPoolInDel ← poolInDel store poolId
    let isValidPoolid ← validPoolid poolId
    if isValidPoolid && !isPoolInDel then pure .poolInUse
    else if isPoolInDel then pure .poolDeletionInProgress
    else pure .poolNotInUse

/-- The validation of a pool id (`kv_internal_validation`), which refuses the default pool to a
call that deletes. -/
def validatePoolId (deletes : Bool) : BitmapReader Bool :=
  if deletes ∧ poolId = defaultPoolId then pure false
  else do
    let status ← checkPoolStatus store poolId
    pure (status = .poolInUse ∨ poolId = poolIdAll)

end BitmapReader

/-- The calls that take a pool id. -/
inductive PoolIdCall where
  | kvGetPoolInfo
  | kvPut
  | kvGet
  | kvBegin
  | kvPoolDelete

/-- The status checks that a call makes of its pool id. `delete_pool` checks a single pool again. -/
def PoolIdCall.checks (store : NvmKvStore) (poolId : UInt32) : PoolIdCall → BitmapReader Unit
  | .kvGetPoolInfo => do
      let _ ← BitmapReader.checkPoolStatus store poolId
      pure ()
  | .kvPut | .kvGet | .kvBegin => do
      let _ ← BitmapReader.validatePoolId store poolId false
      pure ()
  | .kvPoolDelete => do
      if ← BitmapReader.validatePoolId store poolId true then
        if poolId ≠ poolIdAll then
          let _ ← BitmapReader.checkPoolStatus store poolId
          pure ()

/-- A word that was allocated. -/
def WordRead.Allocated (store : NvmKvStore) (read : WordRead) : Prop :=
  read.word < store.bitmapWords

section Reads

variable {store : NvmKvStore} {poolId : UInt32}

/-- The words of the manager's memory. -/
def readBitmaps (mgr : NvmKvPoolMgr) :
    Program.Handler WordRead (fun _ => BitVec 32) Unit := fun read state =>
  match read.bitmap with
  | .inUse => some (mgr.inUse read.word, state)
  | .deleted => some (mgr.deleted read.word, state)

section Runs

variable (mgr : NvmKvPoolMgr)

/-- Over the bitmaps of a manager a test tells its bit. -/
@[simp] theorem run_testInUse (index : Nat) :
    (BitmapReader.bitmapTest .inUse index).run (readBitmaps mgr) () =
      some (bitmapTest mgr.inUse index, ()) := rfl

/-- Here, too. -/
@[simp] theorem run_testDeleted (index : Nat) :
    (BitmapReader.bitmapTest .deleted index).run (readBitmaps mgr) () =
      some (bitmapTest mgr.deleted index, ()) := rfl

/-- A pool is being deleted when it is in use and marked. -/
theorem run_poolInDel :
    (BitmapReader.poolInDel store poolId).run (readBitmaps mgr) () =
      some (bitmapTest mgr.inUse poolId.toNat && bitmapTest mgr.deleted poolId.toNat, ()) := by
  have positive : store.maxPools ≠ 0 := Nat.ne_of_gt store.poolsPositive
  rw [BitmapReader.poolInDel, if_pos positive, Program.run_bind, run_testInUse, Option.bind_some]
  cases bitmapTest mgr.inUse poolId.toNat with
  | true => exact run_testDeleted mgr _
  | false => rfl

/-- An id is valid when it is the default one or in use. -/
theorem run_validPoolid :
    (BitmapReader.validPoolid poolId).run (readBitmaps mgr) () =
      some (decide (poolId.toNat = 0) || bitmapTest mgr.inUse poolId.toNat, ()) := by
  have zero : poolId = defaultPoolId ↔ poolId.toNat = 0 := UInt32.toNat_inj.symm
  rw [BitmapReader.validPoolid]
  by_cases default : poolId = defaultPoolId
  · rw [if_pos default, decide_eq_true (zero.mp default)]
    rfl
  · rw [if_neg default, decide_eq_false fun none => default (zero.mpr none)]
    exact run_testInUse mgr _

/-- Over the bitmaps of a manager the check gives its status of the pool. -/
theorem run_statusReads :
    (BitmapReader.checkPoolStatus store poolId).run (readBitmaps mgr) () =
      some (mgr.checkPoolStatus poolId, ()) := by
  rw [BitmapReader.checkPoolStatus, NvmKvPoolMgr.checkPoolStatus, poolStatus]
  by_cases invalid : 2 ^ 31 ≤ poolId.toNat ∨ nvmKvMaxPools ≤ poolId.toNat
  · simp only [if_pos invalid, Program.run_pure]
  · simp only [if_neg invalid, Program.run_bind, run_poolInDel, run_validPoolid, Option.bind_some]
    split_ifs <;> rfl

end Runs

/-- The bitmaps are those of `bm_len`, in whole words. -/
theorem bitmapWords_eq : store.bitmapWords * 32 = 8 * store.bmLen := by
  have sizes : bitmapAllocAligned store.maxPools store.sectorSize = store.bmLen := rfl
  have limit : store.maxPools ≤ 1048576 := store.poolsBounded
  have small : round32 store.maxPools / 8 < 2 ^ 63 := by
    unfold round32
    omega
  have rounded := store.capabilities.round_upto_sector (round32 store.maxPools / 8) small
  obtain ⟨bits, above, _, size⟩ := store.capabilities.sector_pow
  have whole : 4 ∣ store.capabilities.nvmSectorSize := by
    rw [size]
    exact pow_dvd_pow 2 (by omega : 2 ≤ bits)
  have words : 4 ∣ store.bmLen := by
    have len : store.bmLen = _ := rounded
    rw [len]
    exact Dvd.dvd.mul_left whole _
  rw [NvmKvStore.bitmapWords, sizes]
  omega

/-- The ids whose bits are in the bitmaps, and those that the check refuses. -/
def StatusInBounds (store : NvmKvStore) (poolId : UInt32) : Prop :=
  nvmKvMaxPools ≤ poolId.toNat ∨ poolId.toNat < 8 * store.bmLen

/-- The bit of a pool is in an allocated word when the bitmap is long enough for it. -/
theorem allocated_iff {bitmap : PoolBitmap} {index : Nat} :
    WordRead.Allocated store ⟨bitmap, index / 32⟩ ↔ index < 8 * store.bmLen := by
  rw [WordRead.Allocated, ← bitmapWords_eq]
  dsimp only
  omega

/-- A test reads the word of its bit. -/
theorem bitmapTest_reads {bitmap : PoolBitmap} {index : Nat} :
    (BitmapReader.bitmapTest bitmap index).Calls (WordRead.Allocated store) ↔
      index < 8 * store.bmLen := by
  rw [← @allocated_iff store bitmap]
  exact ⟨fun reads => reads.1, fun inside => ⟨inside, fun _ => trivial⟩⟩

/-- What the check reads is allocated exactly when it refuses the id or the bitmaps have its bit.
The first read is that of the bit in use. -/
theorem checkPoolStatus_reads :
    (BitmapReader.checkPoolStatus store poolId).Calls (WordRead.Allocated store) ↔
      StatusInBounds store poolId := by
  have positive : store.maxPools ≠ 0 := Nat.ne_of_gt store.poolsPositive
  have limit : nvmKvMaxPools = 1048576 := rfl
  rw [BitmapReader.checkPoolStatus, StatusInBounds]
  by_cases refused : 2 ^ 31 ≤ poolId.toNat ∨ nvmKvMaxPools ≤ poolId.toNat
  · rw [if_pos refused]
    exact iff_of_true trivial (Or.inl (by omega))
  · rw [if_neg refused]
    constructor
    · intro reads
      have first : (BitmapReader.poolInDel store poolId >>= fun _ => _).Calls
        (WordRead.Allocated store) := reads
      rw [BitmapReader.poolInDel, if_pos positive] at first
      exact Or.inr (allocated_iff.mp first.1)
    · intro fits
      have inside : poolId.toNat < 8 * store.bmLen :=
        fits.resolve_left fun above => refused (Or.inr above)
      refine Program.Calls.bind ?_ fun isPoolInDel => Program.Calls.bind ?_ fun isValid => ?_
      · rw [BitmapReader.poolInDel, if_pos positive]
        refine Program.Calls.bind (bitmapTest_reads.mpr inside) fun used => ?_
        exact Program.Calls.ite (bitmapTest_reads.mpr inside) trivial
      · exact Program.Calls.ite trivial (bitmapTest_reads.mpr inside)
      · exact Program.Calls.ite trivial (Program.Calls.ite trivial trivial)

/-- So for an id that is refused or whose bit is in the bitmaps, the status of a pool that the
manager tells is found by a check that reads allocated words only. -/
theorem checkPoolStatus_inBounds {mgr : NvmKvPoolMgr} (inside : StatusInBounds store poolId) :
    (BitmapReader.checkPoolStatus store poolId).Calls (WordRead.Allocated store) ∧
      (BitmapReader.checkPoolStatus store poolId).run (readBitmaps mgr) () =
        some (mgr.checkPoolStatus poolId, ()) :=
  ⟨checkPoolStatus_reads.mpr inside, run_statusReads mgr⟩

/-- The same of the validation, which does not come to the check for a default pool that is to be
deleted. Its bit is in the bitmaps anyway. -/
theorem validatePoolId_reads {deletes : Bool} :
    (BitmapReader.validatePoolId store poolId deletes).Calls (WordRead.Allocated store) ↔
      StatusInBounds store poolId := by
  rw [BitmapReader.validatePoolId]
  by_cases default : deletes = true ∧ poolId = defaultPoolId
  · have words : 0 < 8 * store.bmLen := by
      have pools := store.poolsPositive
      have inside := store.word_inside pools
      omega
    rw [if_pos default, default.2]
    exact iff_of_true trivial (Or.inr words)
  · rw [if_neg default, ← checkPoolStatus_reads]
    exact Program.Calls.bind_iff fun _ => trivial

end Reads

/-- The status checks of a call read allocated words exactly when the id is refused or its bits are
in the bitmaps. -/
theorem status_reads_in_bounds (store : NvmKvStore) (call : PoolIdCall) (poolId : UInt32) :
    (call.checks store poolId).Calls (WordRead.Allocated store) ↔
      nvmKvMaxPools ≤ poolId.toNat ∨ poolId.toNat < 8 * store.bmLen := by
  change _ ↔ StatusInBounds store poolId
  cases call with
  | kvGetPoolInfo =>
    rw [← checkPoolStatus_reads]
    exact Program.Calls.bind_iff fun _ => trivial
  | kvPut =>
    rw [← @validatePoolId_reads store poolId false]
    exact Program.Calls.bind_iff fun _ => trivial
  | kvGet =>
    rw [← @validatePoolId_reads store poolId false]
    exact Program.Calls.bind_iff fun _ => trivial
  | kvBegin =>
    rw [← @validatePoolId_reads store poolId false]
    exact Program.Calls.bind_iff fun _ => trivial
  | kvPoolDelete =>
    constructor
    · intro reads
      exact validatePoolId_reads.mp reads.of_bind
    · intro inside
      refine Program.Calls.bind (validatePoolId_reads.mpr inside) fun valid => ?_
      refine Program.Calls.ite (Program.Calls.ite ?_ trivial) trivial
      exact Program.Calls.bind (checkPoolStatus_reads.mpr inside) fun _ => trivial

/-- A store of four pools on sectors of 512 bytes has bitmaps of 4096 bits, and the status of pool
4096 is looked up behind them. -/
theorem status_read_behind :
    ¬∀ (store : NvmKvStore) (call : PoolIdCall) (poolId : UInt32),
      (call.checks store poolId).Calls (WordRead.Allocated store) := by
  intro inside
  have reads := inside NvmKvStore.terabyteStore .kvGetPoolInfo 4096
  have first : (4096 / 32 : Nat) < NvmKvStore.terabyteStore.bitmapWords := reads.1
  exact absurd first (by decide)

end Nvmkv
