import Nvmkv.PoolBookkeeping
import Nvmkv.PoolDeletionCompletes
import Nvmkv.PoolDeletionThread
import Nvmkv.SlotOutlines

/-!
# What the deletion thread may trim

The thread decides by the start of a range, by the pool in the header there or by the low
bits of the address, and trims the whole range some time later. Nothing but the ranges that
it was given protects the pairs of other pools.

The conditions on the steps say where this is enough. When the thread sets to work, no pool of
its copy has been cleared since the copy was made, and a copy that stands for all pools leaves
out no pool but the default one that has pairs; while such a round lasts no pair is put into a
pool that was left out. A range that the device lists starts with a pair, and when that pair
is of a pool that is due then so are all pairs of the range; puts into listed ranges keep
this.
-/

namespace Nvmkv

variable {ι : Type}

namespace DeletionState

variable (store : NvmKvStore) (state : DeletionState ι)

/-- A range with pairs starts with one, and is due as a whole when the pool of that one is. -/
def Honest (range : NvmBlockRange) : Prop :=
  ∀ lba pair, range.Covers lba → state.pairs lba = some pair →
    ∃ first, state.pairs range.startLba = some first ∧ first.lba = range.startLba ∧
      (state.round.pending first.poolId = true → state.round.pending pair.poolId = true)

/-- All pairs in a range are of pools that the thread has copied and not cleared yet. -/
def Confined (range : NvmBlockRange) : Prop :=
  ∀ lba pair, range.Covers lba → state.pairs lba = some pair →
    state.round.pending pair.poolId = true

/-- A batch of a put that covers something of a listed range is of a pool that is due if the
pool of the pair at the start of the range is. Where it covers the start it writes its pair
there, which is of a due pool only if the one before was. -/
def SparesListed (poolId : UInt32) (iovec : List NvmIovec) : Prop :=
  ∀ range ∈ state.listed, (∃ lba, range.Covers lba ∧ BatchCovers store iovec lba) →
    ∃ first, state.pairs range.startLba = some first ∧
      (state.round.pending first.poolId = true → state.round.pending poolId.toNat = true) ∧
      (BatchCovers store iovec range.startLba →
        (∃ vector, iovec.find? (·.iovOpcode = .write) = some vector ∧
          vector.iovLba = range.startLba) ∧
        (state.round.pending poolId.toNat = true → state.round.pending first.poolId = true))

/-- No pool but the default one and those of the copy has pairs. -/
def LeavesOutNone : Prop :=
  ∀ lba pair, state.pairs lba = some pair →
    pair.poolId = 0 ∨ state.round.copied pair.poolId = true

/-- What a batch covers is of pools that were marked when the thread made its copy, and whose
ids have not been given out again since. -/
def TrimsConfined (iovec : List NvmIovec) : Prop :=
  ∀ lba pair, BatchCovers store iovec lba → state.pairs lba = some pair →
    state.round.copied pair.poolId = true ∧
      state.generation pair.poolId = state.round.copiedGeneration pair.poolId

/-- The condition on the batch of a put: no more vectors than are filled, a pool id that is not
that of all pools, no pool that a round for all pools has left out, and what was listed is
spared. -/
def PutConfined (poolId : UInt32) (pair : NvmKvIovec) (iovec : List NvmIovec) : Prop :=
  VectorsFilled store.capabilities pair.key.length pair.value pair.valueLen ∧
    poolId.toNat < store.maxPools ∧
    (state.round.poolDelStatus = true → state.round.deletesAll = true →
      poolId = defaultPoolId ∨ state.round.copied poolId.toNat = true) ∧
    state.SparesListed store poolId iovec

/-- The condition on the steps. -/
def Confines (calls : ι → DeletionCall) : Option ι → DeletionOp → Prop
  | none, .setPoolDelStatus true =>
      (∀ poolId, state.round.copied poolId = true → state.round.pending poolId = true) ∧
        (state.round.deletesAll = true → state.LeavesOutNone)
  | none, .system (.logicalRangeIterator search maxRanges filterMask filterPattern) =>
      ∀ range ∈ (state.system.store.media.logicalRangeIterator search maxRanges filterMask
        filterPattern).1, state.Honest range
  | some client, .system (.store (.batchAtomic iovec)) =>
      ∀ poolId pair allocation, calls client = .kvPut poolId pair allocation →
        state.PutConfined store poolId pair iovec
  | _, _ => True

/-- What a step of a client leaves to the thread. -/
structure Spared (before after : DeletionState ι) : Prop where
  listed : after.listed = before.listed
  round : after.round = before.round
  honest : ∀ range ∈ before.listed, before.Honest range → after.Honest range
  confined : ∀ range ∈ before.listed, before.Confined range → after.Confined range

end DeletionState

/-- What is between any two steps. The records agree with the device and the cache: the sector
at the address of a pair has a header with the pool of the pair, and the address tells the
pool. -/
structure DeletionInvariant (store : NvmKvStore) (state : DeletionState ι) : Prop where
  books : Bookkeeping store state.system.mgr state.round.pending
  header : ∀ lba pair, state.pairs lba = some pair → pair.lba = lba →
    (storedHeader store state.system.store.media lba).isKey = true ∧
      (storedHeader store state.system.store.media lba).poolId = pair.poolId
  addressed : ∀ lba pair, state.pairs lba = some pair → pair.lba = lba →
    lba &&& store.poolMask = store.poolIdHash (UInt32.ofNat pair.poolId)
  bounded : ∀ lba pair, state.pairs lba = some pair → pair.poolId < store.maxPools
  cached : CacheSound store state.system.store.cache
  pending : ∀ poolId, state.round.pending poolId = true →
    state.round.copied poolId = true ∧
      state.generation poolId = state.round.copiedGeneration poolId
  all : state.round.poolDelStatus = true → state.round.deletesAll = true → state.LeavesOutNone

/-- What the threads owe each other. -/
def deletionDiscipline (store : NvmKvStore) (calls : ι → DeletionCall) :
    Discipline DeletionOp (DeletionState ι) (Option ι) where
  invariant := DeletionInvariant store
  rely := fun thread before after => thread = none → before.Spared after
  allowed := fun thread op state => state.Confines store calls thread op
  checked := fun thread op state => thread = none →
    ∀ iovec, op = .system (.store (.batchAtomic iovec)) → state.TrimsConfined store iovec

section Steps

variable {store : NvmKvStore} {state reached : DeletionState ι}

/-- A step that changes neither the records of pairs nor what was copied and listed spares the
thread. -/
theorem DeletionState.Spared.of_same (pairs : reached.pairs = state.pairs)
    (listed : reached.listed = state.listed) (round : reached.round = state.round) :
    state.Spared reached where
  listed := listed
  round := round
  honest := by
    intro range _ honest
    rw [Honest, pairs, round]
    exact honest
  confined := by
    intro range _ confined
    rw [Confined, pairs, round]
    exact confined

/-- What is confined to pending pools may be trimmed. -/
theorem DeletionInvariant.trims (invariant : DeletionInvariant store state)
    {ranges : List NvmBlockRange} (confined : ∀ range ∈ ranges, state.Confined range) :
    state.TrimsConfined store (ranges.map (poolRangeIovec store)) := by
  rintro lba pair ⟨vector, member, covers⟩ recorded
  obtain ⟨range, among, rfl⟩ := List.mem_map.mp member
  have due := confined range among lba pair ((poolRangeIovec_covers store).mp covers) recorded
  exact invariant.pending pair.poolId due

/-- What the thread looks for in a round: the pairs of one pool, or those of all pools of its
copy. -/
def DeletionRound.Target (round : DeletionRound) : Option Nat → Prop
  | some poolId => round.pending poolId = true
  | none => round.poolDelStatus = true ∧ round.deletesAll = true ∧
      ∀ poolId, round.copied poolId = true → round.pending poolId = true

/-- A pair of a pool that the thread looks for is of a pending pool. -/
theorem DeletionInvariant.due (invariant : DeletionInvariant store state) {poolId : Option Nat}
    (target : state.round.Target poolId) {lba : Nat} {pair : PoolPair}
    (recorded : state.pairs lba = some pair)
    (sought : NvmKvStore.skipsPool poolId pair.poolId = false) :
    state.round.pending pair.poolId = true := by
  cases poolId with
  | some id =>
    have same : id = pair.poolId := not_not.mp (of_decide_eq_false sought)
    rw [← same]
    exact target
  | none =>
    have other : pair.poolId ≠ 0 := of_decide_eq_false sought
    obtain ⟨status, deletesAll, due⟩ := target
    exact due _ ((invariant.all status deletesAll lba pair recorded).resolve_left other)

/-- A range whose header tells a pool that the thread looks for is confined. A range without a
header has no pairs. -/
theorem DeletionInvariant.confined_header (invariant : DeletionInvariant store state)
    {poolId : Option Nat} (target : state.round.Target poolId) {range : NvmBlockRange}
    (honest : state.Honest range)
    (told : (storedHeader store state.system.store.media range.startLba).isKey = true →
      NvmKvStore.skipsPool poolId
        (storedHeader store state.system.store.media range.startLba).poolId = false) :
    state.Confined range := by
  intro lba pair covers recorded
  obtain ⟨first, starts, here, whole⟩ := honest lba pair covers recorded
  obtain ⟨isKey, pool⟩ := invariant.header _ first starts here
  have sought := told isKey
  rw [pool] at sought
  exact whole (invariant.due target starts sought)

/-- Where ids are not hashed, a range whose address tells such a pool is confined. -/
theorem DeletionInvariant.confined_address (invariant : DeletionInvariant store state)
    (direct : store.validatesPoolIdOnMedia = false) {poolId : Option Nat}
    (target : state.round.Target poolId) {range : NvmBlockRange} (honest : state.Honest range)
    (told : NvmKvStore.skipsPool poolId (range.startLba &&& store.poolMask) = false) :
    state.Confined range := by
  intro lba pair covers recorded
  obtain ⟨first, starts, here, whole⟩ := honest lba pair covers recorded
  have address := invariant.addressed _ first starts here
  rw [poolIdHash_id direct (invariant.bounded _ first starts)] at address
  rw [address] at told
  exact whole (invariant.due target starts told)

end Steps

end Nvmkv
