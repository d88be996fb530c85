import Nvmkv.AddressDecoding
import Nvmkv.DeletionRecords
import Nvmkv.ExpirySparesLive

/-!
# Steps beside the deletion thread

Every call keeps the records in agreement with the device, the cache and the pool manager.
A call that only reads or works on the safe list leaves all of them. The batch of a put
changes the sectors that it covers, and under the conditions on the steps it spares what was
listed for the deletion thread. The pools that the thread has still to clear stay in use, so
none of their ids is given out meanwhile.
-/

namespace Nvmkv

section Machines

variable {ι : Type} [DecidableEq ι] {store : NvmKvStore} {calls : ι → DeletionCall}
  {thread : Option ι} {state reached : DeletionState ι}

/-- What the machine does at the calls of the store with its pool manager. -/
abbrev deletionSystemAnswer (store : NvmKvStore) (calls : ι → DeletionCall) :
    Option ι → Program.Handler SystemOp SystemRes (DeletionState ι) := fun thread =>
  Program.Handler.restrict DeletionOp.system (fun _ answered => answered)
    (answerDeletion store calls thread)

/-- What it does at the calls of the store. -/
abbrev deletionStoreAnswer (store : NvmKvStore) (calls : ι → DeletionCall) :
    Option ι → Program.Handler StoreOp StoreRes (DeletionState ι) := fun thread =>
  Program.Handler.restrict SystemOp.store (fun _ answered => answered)
    (deletionSystemAnswer store calls thread)

/-- What the threads owe each other at the calls of the store with its pool manager. -/
abbrev deletionSystemDiscipline (store : NvmKvStore) (calls : ι → DeletionCall) :
    Discipline SystemOp (DeletionState ι) (Option ι) :=
  (deletionDiscipline store calls).restrict DeletionOp.system

/-- What they owe each other at the calls of the store. -/
abbrev deletionStoreDiscipline (store : NvmKvStore) (calls : ι → DeletionCall) :
    Discipline StoreOp (DeletionState ι) (Option ι) :=
  (deletionSystemDiscipline store calls).restrict SystemOp.store

/-- The system answers as it does without the records, which only note the call. -/
theorem deletionSystemAnswer_eq {op : SystemOp} {answered : SystemRes op}
    (reply : deletionSystemAnswer store calls thread op state = some (answered, reached)) :
    ∃ after, answerSystem store thread op state.system = some (answered, after) ∧
      reached = state.noted store calls thread op answered after := by
  unfold deletionSystemAnswer Program.Handler.restrict answerDeletion at reply
  rw [Option.map_map, Option.map_eq_some_iff] at reply
  obtain ⟨⟨made, after⟩, made', same⟩ := reply
  obtain ⟨rfl, rfl⟩ := Prod.mk.inj same
  exact ⟨after, made', rfl⟩

/-- So does the store within it. -/
theorem deletionStoreAnswer_eq {op : StoreOp} {answered : StoreRes op}
    (reply : deletionStoreAnswer store calls thread op state = some (answered, reached)) :
    ∃ after, answer store thread op state.system.store = some (answered, after) ∧
      reached = state.notedStore store calls thread op { state.system with store := after } := by
  unfold deletionStoreAnswer at reply
  rw [Program.Handler.restrict, Option.map_eq_some_iff] at reply
  obtain ⟨⟨made, shared⟩, made', same⟩ := reply
  obtain ⟨rfl, rfl⟩ := Prod.mk.inj same
  obtain ⟨after, replied, rfl⟩ := deletionSystemAnswer_eq made'
  rw [answerSystem, Option.map_eq_some_iff] at replied
  obtain ⟨⟨_, stored⟩, answers, same⟩ := replied
  obtain ⟨rfl, rfl⟩ := Prod.mk.inj same
  exact ⟨stored, answers, rfl⟩

/-- A searching call changes the safe list, and what its thread has validated, at most. -/
theorem StoreOp.Searches.noted {op : StoreOp} (searches : op.Searches) {answered : StoreRes op}
    (reply : deletionStoreAnswer store calls thread op state = some (answered, reached)) :
    ∃ safeLbaList validated,
      (∀ other poolId, validated other poolId = state.validated other poolId ∨
        validated other poolId = state.generation poolId) ∧
      reached = { state with
        system :=
          { state.system with
            store := { state.system.store with safeLbaList := safeLbaList } }
        validated := validated } := by
  obtain ⟨after, made, rfl⟩ := deletionStoreAnswer_eq reply
  have same := searches.unchanged made
  have rest : ∀ other poolId, state.validated other poolId = state.validated other poolId ∨
      state.validated other poolId = state.generation poolId := fun _ _ => .inl rfl
  rw [same]
  cases op with
  | checkPoolStatus poolId =>
    refine ⟨after.safeLbaList, Function.update state.validated thread state.generation, ?_, rfl⟩
    intro other pool
    by_cases own : other = thread
    · rw [own, Function.update_self]
      exact .inr rfl
    · rw [Function.update_of_ne own]
      exact .inl rfl
  | batchAtomic iovec => exact searches.elim id id |>.elim
  | cachePut key poolId valueLen absExpiry genCount lba context =>
    exact searches.elim id id |>.elim
  | _ => exact ⟨after.safeLbaList, state.validated, rest, rfl⟩

omit [DecidableEq ι] in
/-- A searching call keeps all that is between two steps. -/
theorem DeletionInvariant.searched (invariant : DeletionInvariant store state)
    {safeLbaList : Nat → Option (Option ι)} {validated : Option ι → Nat → Nat} :
    DeletionInvariant store { state with
      system :=
        { state.system with
          store := { state.system.store with safeLbaList := safeLbaList } }
      validated := validated } where
  books := invariant.books
  header := invariant.header
  addressed := invariant.addressed
  bounded := invariant.bounded
  cached := invariant.cached
  pending := invariant.pending
  all := invariant.all

/-- Searching calls do not matter to what is said about the records of the thread. -/
theorem ignores_deletion_searches {held : DeletionState ι → Prop}
    (stable : (deletionStoreDiscipline store calls).Stable thread held)
    (same : ∀ {before after : DeletionState ι}, before.Spared after →
      after.pairs = before.pairs → held before → held after) :
    (deletionStoreDiscipline store calls).Ignores (deletionStoreAnswer store calls) thread
      StoreOp.Searches held where
  stable := stable
  kept := by
    intro op state searches invariant holds
    refine ⟨?_, ?_⟩
    · intro _ iovec batch
      obtain rfl : op = .batchAtomic iovec := by
        injection batch with inner
        injection inner
      exact searches.elim id id |>.elim
    · intro answered reached _ reply
      obtain ⟨safeLbaList, validated, valid, rfl⟩ := searches.noted reply
      have spared : state.Spared { state with
          system :=
            { state.system with
              store := { state.system.store with safeLbaList := safeLbaList } }
          validated := validated } := .of_same rfl rfl rfl
      exact ⟨invariant.searched, fun _ _ _ => spared, same spared rfl holds⟩

/-- The state after a batch of a thread, with the records. -/
def DeletionState.batched (store : NvmKvStore) (calls : ι → DeletionCall) (thread : Option ι)
    (state : DeletionState ι) (iovec : List NvmIovec) : DeletionState ι :=
  state.notedStore store calls thread (.batchAtomic iovec)
    { state.system with
      store :=
        { state.system.store with
          media := state.system.store.media.applyBatch store.sectorSize iovec
          log := state.system.store.log ++ [(thread, iovec)] } }

end Machines

/-- A batch that puts a pair of a pool at an address: the first sector written is the one at
the address, and it gets a header of the pool. -/
structure PutsPairAt (store : NvmKvStore) (poolId : UInt32) (lba : Nat) (iovec : List NvmIovec) :
    Prop where
  first : ∀ vector, iovec.find? (·.iovOpcode = .write) = some vector → vector.iovLba = lba
  header : ∀ media : Media, BatchCovers store iovec lba →
    (media.applyBatch store.sectorSize iovec lba).isSome = true ∧
    (storedHeader store (media.applyBatch store.sectorSize iovec) lba).isKey = true ∧
      (storedHeader store (media.applyBatch store.sectorSize iovec) lba).poolId = poolId.toNat
  addressed : lba &&& store.poolMask = store.poolIdHash poolId

/-- The batch of a put with filled vectors puts its pair at its address. What is trimmed lies behind
the value. -/
theorem putsPairAt_put {store : NvmKvStore} {poolId : UInt32} {pair : NvmKvIovec} {buf : Region}
    {memory : Nat → NvmIovec} {trims : List NvmIovec} {clock lba trimLen : Nat}
    (pool : poolId.toNat < store.maxPools) (probed : lba ∈ store.probes poolId pair.key)
    (valid : kvValidateKey pair.key = true) (positive : 0 < pair.valueLen)
    (bounded : pair.valueLen ≤ nvmKvMaxValueSize)
    (trimmed : kvProcessForTrim store.capabilities pair.valueLen trimLen lba = .ok trims)
    (filled : VectorsFilled store.capabilities pair.key.length pair.value pair.valueLen) :
    PutsPairAt store poolId lba (handedIovec memory
      (trims ++ putIovec store poolId pair (writeLayout store.capabilities pair.key.length
        pair.value pair.valueLen) buf clock lba)
      (writeLayout store.capabilities pair.key.length pair.value pair.valueLen).iovCount) := by
  obtain ⟨nonempty, short⟩ := of_decide_eq_true valid
  have enough : (writeLayout store.capabilities pair.key.length pair.value
      pair.valueLen).iovCount ≤ (trims ++ putIovec store poolId pair (writeLayout
        store.capabilities pair.key.length pair.value pair.valueLen) buf clock lba).length := by
    have counted : _ ≤ _ := filled
    rw [List.length_append, putIovec, pairIovec_length]
    omega
  have trim : ∀ passed ∈ trims, passed.iovOpcode = .trim := fun passed member =>
    (kvProcessForTrim_starts bounded trimmed member).2
  rw [handedIovec_take memory _ enough]
  constructor
  · exact fun vector first => firstWrite_lba trim first
  · intro media covered
    have mapped : (media.applyBatch store.sectorSize ((trims ++ putIovec store poolId pair
        (writeLayout store.capabilities pair.key.length pair.value pair.valueLen) buf clock
        lba).take (writeLayout store.capabilities pair.key.length pair.value
          pair.valueLen).iovCount) lba).isSome = true := by
      obtain ⟨vector, taken, covers, content⟩ := @Media.applyBatch_covered _ _ _ media covered
      rw [content]
      rcases List.mem_append.mp (List.mem_of_mem_take taken) with passed | write
      · have starts := (kvProcessForTrim_starts bounded trimmed passed).1
        have whole := (valueSectors_covers store.capabilities pair.valueLen).1
        have above := covers.1
        have sectors : valueSectors store.capabilities pair.valueLen = 0 := by omega
        rw [sectors, Nat.zero_mul] at whole
        omega
      · obtain ⟨_, written⟩ := pairIovec_content _ _ pair.value (by
          have limit : (nvmKvMaxValueSize : Nat) = 1047552 := rfl
          omega) lba media write covers
        rw [pairWritten_first] at written
        exact Option.isSome_iff_exists.mpr ⟨_, written⟩
    have content := put_firstSector bounded trim covered mapped
    have matched := @headerMatches_firstSector store poolId poolId pair pair.key buf clock short
      short
    rw [decide_eq_true ⟨rfl, rfl⟩] at matched
    obtain ⟨length, -, told⟩ := headerMatches_iff.mp matched
    rw [storedHeader_sector content]
    refine ⟨mapped, decide_eq_true ?_, told⟩
    rw [length]
    exact ⟨nonempty.ne', short⟩
  · obtain ⟨i, below, rfl⟩ : ∃ i < maxCollision, store.probeLba poolId pair.key i = lba := by
      rw [NvmKvStore.probes, List.mem_map] at probed
      obtain ⟨i, listed, same⟩ := probed
      exact ⟨i, List.mem_range.mp listed, same⟩
    exact (NvmKvStore.decodes_of_narrow (NvmKvStore.poolIdHash_lt pool)
      (List.length_pos_iff.mp nonempty) i below).1

/-- A range that covers a sector covers where it starts. -/
theorem NvmBlockRange.Covers.starts {range : NvmBlockRange} {lba : Nat}
    (covers : range.Covers lba) : range.Covers range.startLba := by
  obtain ⟨above, below⟩ := covers
  exact ⟨Nat.le_refl _, by omega⟩

section Puts

variable {ι : Type} [DecidableEq ι] {store : NvmKvStore} {calls : ι → DeletionCall} {client : ι}
  {state : DeletionState ι} {poolId : UInt32} {pair : NvmKvIovec} {allocation : Allocation}
  {iovec : List NvmIovec} {lba : Nat}

/-- What is recorded of a sector after the batch of a put: the pair of the put, or what was. -/
theorem batched_pairs (call : calls client = .kvPut poolId pair allocation)
    (puts : PutsPairAt store poolId lba iovec) {sector : Nat} {other : PoolPair}
    (stored : (state.batched store calls (some client) iovec).pairs sector = some other) :
    (BatchCovers store iovec sector ∧
      ((state.system.store.media.applyBatch store.sectorSize iovec) sector).isSome ∧
      other = ⟨lba, poolId.toNat, state.validated (some client) poolId.toNat⟩) ∨
    ¬BatchCovers store iovec sector ∧ state.pairs sector = some other := by
  change (if BatchCovers store iovec sector then _ else state.pairs sector) = some other at stored
  split_ifs at stored with covered mapped
  · refine .inl ⟨covered, mapped, ?_⟩
    rw [poolPairOf, call] at stored
    obtain ⟨vector, first, rfl⟩ := Option.map_eq_some_iff.mp stored
    rw [puts.first vector first]
  · exact .inr ⟨covered, stored⟩

/-- The batch of a put keeps what is between two steps. -/
theorem DeletionInvariant.put (invariant : DeletionInvariant store state)
    (call : calls client = .kvPut poolId pair allocation)
    (puts : PutsPairAt store poolId lba iovec) (pool : poolId.toNat < store.maxPools)
    (among : state.round.poolDelStatus = true → state.round.deletesAll = true →
      poolId = defaultPoolId ∨ state.round.copied poolId.toNat = true) :
    DeletionInvariant store (state.batched store calls (some client) iovec) where
  books := invariant.books
  header := by
    intro sector other stored here
    rcases batched_pairs call puts stored with ⟨covered, mapped, rfl⟩ | ⟨uncovered, before⟩
    · obtain rfl : lba = sector := here
      exact (puts.header state.system.store.media covered).2
    · have same : (state.batched store calls (some client) iovec).system.store.media sector =
          state.system.store.media sector := applyBatch_uncovered uncovered
      rw [storedHeader_congr same]
      exact invariant.header sector other before here
  addressed := by
    intro sector other stored here
    rcases batched_pairs call puts stored with ⟨_, _, rfl⟩ | ⟨_, before⟩
    · obtain rfl : lba = sector := here
      rw [UInt32.ofNat_toNat]
      exact puts.addressed
    · exact invariant.addressed sector other before here
  bounded := by
    intro sector other stored
    rcases batched_pairs call puts stored with ⟨_, _, rfl⟩ | ⟨_, before⟩
    · exact pool
    · exact invariant.bounded sector other before
  cached := invariant.cached
  pending := invariant.pending
  all := by
    intro status deletesAll sector other stored
    rcases batched_pairs call puts stored with ⟨_, _, rfl⟩ | ⟨_, before⟩
    · exact (among status deletesAll).imp (fun same => congrArg UInt32.toNat same) id
    · exact invariant.all status deletesAll sector other before

/-- At the address of a put its pair is recorded. -/
theorem batched_first (call : calls client = .kvPut poolId pair allocation)
    (puts : PutsPairAt store poolId lba iovec) {vector : NvmIovec}
    (first : iovec.find? (·.iovOpcode = .write) = some vector)
    (covered : BatchCovers store iovec lba) :
    (state.batched store calls (some client) iovec).pairs lba =
      some ⟨lba, poolId.toNat, state.validated (some client) poolId.toNat⟩ := by
  have mapped := (puts.header state.system.store.media covered).1
  change (if BatchCovers store iovec lba then
    if (state.system.store.media.applyBatch store.sectorSize iovec lba).isSome = true then
      poolPairOf calls (state.validated (some client)) iovec (some client) else none
    else state.pairs lba) = _
  rw [if_pos covered, if_pos mapped, poolPairOf, call, ← puts.first vector first]
  dsimp only
  rw [first]
  rfl

/-- What is recorded at the start of a listed range after a put that spares what was listed: a
pair at its address, which is due exactly if the one before was. -/
theorem DeletionState.SparesListed.start (spares : state.SparesListed store poolId iovec)
    (call : calls client = .kvPut poolId pair allocation)
    (puts : PutsPairAt store poolId lba iovec) {range : NvmBlockRange}
    (listed : range ∈ state.listed) {first : PoolPair} (inside : range.Covers range.startLba)
    (starts : state.pairs range.startLba = some first) (here : first.lba = range.startLba) :
    ∃ now, (state.batched store calls (some client) iovec).pairs range.startLba = some now ∧
      now.lba = range.startLba ∧
      (state.round.pending now.poolId = true ↔ state.round.pending first.poolId = true) := by
  by_cases covered : BatchCovers store iovec range.startLba
  · obtain ⟨old, was, keeps, places⟩ := spares range listed ⟨range.startLba, inside, covered⟩
    obtain ⟨⟨vector, found, placed⟩, only⟩ := places covered
    obtain rfl : first = old := Option.some.inj (starts.symm.trans was)
    have address : lba = range.startLba := (puts.first vector found).symm.trans placed
    subst address
    exact ⟨_, batched_first call puts found covered, rfl, only, keeps⟩
  · exact ⟨first, (if_neg covered).trans starts, here, Iff.rfl⟩

/-- A put that spares what was listed leaves listed ranges as they were for the thread. The start of
a range had a pair, and if that was due then so is what is recorded there now. -/
theorem DeletionState.SparesListed.spared (spares : state.SparesListed store poolId iovec)
    (call : calls client = .kvPut poolId pair allocation)
    (puts : PutsPairAt store poolId lba iovec) :
    state.Spared (state.batched store calls (some client) iovec) where
  listed := by
    simp only [batched, notedStore, if_neg (Option.some_ne_none client)]
  round := rfl
  honest := by
    intro range listed honest sector other covers stored
    have inside := covers.starts
    obtain ⟨first, starts, here, whole⟩ : ∃ first, state.pairs range.startLba = some first ∧
        first.lba = range.startLba ∧ (state.round.pending first.poolId = true →
          state.round.pending other.poolId = true) := by
      rcases batched_pairs call puts stored with ⟨covered, _, rfl⟩ | ⟨_, before⟩
      · obtain ⟨first, starts, keeps, _⟩ := spares range listed ⟨sector, covers, covered⟩
        obtain ⟨again, found, here, _⟩ := honest _ first inside starts
        obtain rfl : first = again := Option.some.inj (starts.symm.trans found)
        exact ⟨first, starts, here, keeps⟩
      · exact honest sector other covers before
    obtain ⟨now, stays, address, same⟩ := spares.start call puts listed inside starts here
    exact ⟨now, stays, address, fun due => whole (same.mp due)⟩
  confined := by
    intro range listed confined sector other covers stored
    have inside := covers.starts
    rcases batched_pairs call puts stored with ⟨covered, _, rfl⟩ | ⟨_, before⟩
    · obtain ⟨first, starts, keeps, _⟩ := spares range listed ⟨sector, covers, covered⟩
      exact keeps (confined _ first inside starts)
    · exact confined sector other covers before

end Puts

end Nvmkv
