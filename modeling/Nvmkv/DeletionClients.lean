import Nvmkv.DeletionSteps
import Nvmkv.PreparedVectors

/-!
# Clients beside the deletion thread

The calls of clients go over the machine of the deletion thread as they are. A put is outlined
from its batch and from the entry that it leaves in the cache, whatever is owed; the rest of it
searches. Creating and deleting pools are a few calls each.

Under the conditions on the steps no call of a client takes from the thread what it goes by.
-/

namespace Nvmkv

section Puts

variable {ι : Type} [DecidableEq ι] {store : NvmKvStore} {calls : ι → DeletionCall} {client : ι}
  {discipline : Discipline StoreOp (DeletionState ι) (Option ι)} {poolId : UInt32}
  {pair : NvmKvIovec} {allocation : Allocation}

/-- Programs of the store are programs of the system in the general sense. -/
theorem liftStore_eq {α : Type} (program : StoreM α) :
    liftStore program = program.lift SystemOp.store fun _ answered => answered := by
  induction program with
  | done result => rfl
  | call op next inductionHypothesis =>
    rw [liftStore, Program.lift]
    congr 1
    funext answered
    exact inductionHypothesis answered

/-- A program of the store is outlined as one of the store with its pool manager. -/
theorem outline_liftStore {α : Type} {discipline : Discipline SystemOp (DeletionState ι) (Option ι)}
    {thread : Option ι} {program : StoreM α} {before : DeletionState ι → Prop}
    {after : α → DeletionState ι → Prop}
    (outline : (discipline.restrict SystemOp.store).Outline (deletionStoreAnswer store calls)
      thread program before after) :
    discipline.Outline (deletionSystemAnswer store calls) thread (liftStore program) before
      after := by
  rw [liftStore_eq]
  exact Discipline.Outline.lift outline

/-- The address that a sound cache remembers for a key is one of the key. -/
theorem remembers_probed
    (sound : ∀ state, discipline.invariant state → CacheSound store state.system.store.cache)
    (ignores : discipline.Ignores (deletionStoreAnswer store calls) (some client)
      StoreOp.Searches fun _ => True)
    (nonempty : pair.key ≠ []) :
    discipline.Outline (deletionStoreAnswer store calls) (some client)
      (askCacheGet pair.key poolId) (fun _ => True) fun answered _ => True ∧
        (answered.1 = true → answered.2.contextEntry.lba ∈ store.probes poolId pair.key) := by
  refine Discipline.Outline.perform ignores.stable fun state invariant _ => ?_
  have searches : StoreOp.Searches (.cacheGet pair.key poolId) := .inl trivial
  obtain ⟨safe, answered⟩ := ignores.kept searches invariant trivial
  refine ⟨safe, fun found reached allowed reply => ?_⟩
  obtain ⟨kept, relied, _⟩ := answered allowed reply
  refine ⟨kept, relied, trivial, fun hit => ?_⟩
  obtain ⟨after, made, rfl⟩ := deletionStoreAnswer_eq reply
  obtain ⟨here, _⟩ := Prod.mk.inj (Option.some.inj made)
  obtain ⟨context, same⟩ : ∃ context, found = (true, context) := ⟨found.2, Prod.ext hit rfl⟩
  rw [same] at here ⊢
  exact ((sound state invariant).found nonempty here).1

/-- A put is outlined from its batch, which puts its pair at an address of its key, and from its
entry of the cache. -/
theorem outline_put
    (sound : ∀ state, discipline.invariant state → CacheSound store state.system.store.cache)
    (ignores : discipline.Ignores (deletionStoreAnswer store calls) (some client)
      StoreOp.Searches fun _ => True)
    (handed : ∀ lba iovec,
      (VectorsFilled store.capabilities pair.key.length pair.value pair.valueLen →
        poolId.toNat < store.maxPools → PutsPairAt store poolId lba iovec) →
      discipline.Outline (deletionStoreAnswer store calls) (some client)
        (nvmBatchAtomicOperations iovec) (fun _ => True) fun _ _ => True)
    (cached : ∀ absExpiry lba context, pair.key ≠ [] → lba ∈ store.probes poolId pair.key →
      pair.valueLen ≤ nvmKvMaxValueSize →
      discipline.Outline (deletionStoreAnswer store calls) (some client)
        (askCachePut pair.key poolId pair.valueLen absExpiry pair.genCount lba context)
        (fun _ => True) fun _ _ => True) :
    discipline.Outline (deletionStoreAnswer store calls) (some client)
      (kvPut store poolId pair allocation) (fun _ => True) fun _ _ => True := by
  refine @Discipline.Ignores.outline_kvPut_at _ _ _ _ _ _ _ _ _ _
    (fun lba => lba ∈ store.probes poolId pair.key) ignores ?_ ?_ ?_
  · intro validKey
    have nonempty := (of_decide_eq_true validKey).1
    exact remembers_probed sound ignores (List.length_pos_iff.mp nonempty)
  · exact fun buf => ignores.returns (searches_kvGenLba none) (returns_kvGenLba none)
  intro placed context valid probed
  obtain ⟨validKey, validValue⟩ := Bool.and_eq_true_iff.mp valid
  obtain ⟨positive, bounded, _⟩ := of_decide_eq_true validValue
  have nonempty := List.length_pos_iff.mp (of_decide_eq_true validKey).1
  unfold kvPutWrite
  cases allocation.iovec with
  | none => exact fun _ _ _ => trivial
  | some memory =>
    dsimp only
    split
    · exact fun _ _ _ => trivial
    rename_i trims trimmed
    have prepared : (kvProcessForWrite store.capabilities poolId pair
        (writeLayout store.capabilities pair.key.length pair.value pair.valueLen) placed.buf
        (putExpiry store pair) placed.keyHashVal).Returns fun prepared => ∃ clock,
          prepared.1 = putIovec store poolId pair (writeLayout store.capabilities
            pair.key.length pair.value pair.valueLen) placed.buf clock placed.keyHashVal := by
      unfold kvProcessForWrite
      split_ifs
      · exact ⟨0, rfl⟩
      · exact fun time => ⟨time, rfl⟩
    refine Discipline.Outline.bind (ignores.returns
      (reads_kvProcessForWrite _ _ _ _ _ _).searches prepared) fun written => ?_
    refine Discipline.Outline.given fun ⟨clock, same⟩ => ?_
    obtain ⟨vectors, absExpiry⟩ := written
    obtain rfl : vectors = _ := same
    have written : discipline.Outline (deletionStoreAnswer store calls) (some client)
        (nvmWritev (handedIovec memory (trims ++ putIovec store poolId pair (writeLayout
          store.capabilities pair.key.length pair.value pair.valueLen) placed.buf clock
          placed.keyHashVal) (writeLayout store.capabilities pair.key.length pair.value
          pair.valueLen).iovCount)) (fun _ => True) fun _ _ => True := by
      refine Discipline.Outline.bind (handed placed.keyHashVal _ fun filled pool => ?_) fun done =>
        Discipline.Outline.ite (fun _ => fun _ _ _ => trivial) fun _ => fun _ _ _ => trivial
      exact putsPairAt_put pool probed validKey positive bounded trimmed filled
    refine Discipline.Outline.bind written fun retCode => ?_
    cases retCode with
    | error code => exact fun _ _ _ => trivial
    | ok done =>
      refine Discipline.Outline.ite (fun _ => ?_) fun _ => fun _ _ _ => trivial
      exact Discipline.Outline.bind (cached absExpiry placed.keyHashVal context nonempty probed
        bounded) fun _ => fun _ _ _ => trivial

end Puts

section Spares

variable {ι : Type} [DecidableEq ι] {store : NvmKvStore} {calls : ι → DeletionCall} {client : ι}
  {state : DeletionState ι} {poolId : UInt32} {pair : NvmKvIovec} {allocation : Allocation}

/-- No assertion that says nothing is falsified, and no step of a client says more. -/
theorem spares_searches : (deletionStoreDiscipline store calls).Ignores
    (deletionStoreAnswer store calls) (some client) StoreOp.Searches fun _ => True :=
  ignores_deletion_searches (fun _ _ _ _ _ _ => trivial) fun _ _ _ => trivial

omit [DecidableEq ι] in
/-- A step of a client, which is checked for nothing. -/
theorem spares_perform {Op : Type} {Res : Op → Type} {handle : Option ι → Program.Handler Op Res
      (DeletionState ι)} {inject : Op → DeletionOp} {op : Op}
    (made : ∀ state answered reached, DeletionInvariant store state →
      state.Confines store calls (some client) (inject op) →
      handle (some client) op state = some (answered, reached) →
      DeletionInvariant store reached ∧ state.Spared reached) :
    ((deletionDiscipline store calls).restrict inject).Outline handle (some client)
      (Program.perform op) (fun _ => True) fun _ _ => True := by
  refine Discipline.Outline.perform (fun _ _ _ _ _ _ => trivial) fun state invariant _ => ?_
  refine ⟨fun thread => (Option.some_ne_none client thread).elim,
    fun answered reached allowed reply => ?_⟩
  obtain ⟨kept, spared⟩ := made state answered reached invariant allowed reply
  exact ⟨kept, fun _ _ _ => spared, trivial⟩

/-- A put spares the thread. -/
theorem spares_kvPut_deletion (call : calls client = .kvPut poolId pair allocation) :
    (deletionStoreDiscipline store calls).Outline (deletionStoreAnswer store calls) (some client)
      (kvPut store poolId pair allocation) (fun _ => True) fun _ _ => True := by
  refine outline_put (fun _ invariant => invariant.cached) spares_searches ?_ ?_
  · intro lba iovec puts
    refine spares_perform fun state answered reached invariant allowed reply => ?_
    obtain ⟨after, made, rfl⟩ := deletionStoreAnswer_eq reply
    obtain ⟨_, rfl⟩ := Prod.mk.inj (Option.some.inj made)
    obtain ⟨filled, pool, among, spares⟩ := allowed poolId pair allocation call
    have placed := puts filled pool
    exact ⟨invariant.put call placed pool among, spares.spared call placed⟩
  · intro absExpiry lba context nonempty probed bounded
    refine spares_perform fun state answered reached invariant allowed reply => ?_
    obtain ⟨after, made, rfl⟩ := deletionStoreAnswer_eq reply
    obtain ⟨_, rfl⟩ := Prod.mk.inj (Option.some.inj made)
    exact ⟨{ invariant with cached := invariant.cached.put nonempty probed bounded },
      .of_same rfl rfl rfl⟩

/-- Creating a pool spares the thread: the pools that are due are in use, so their ids are not
given out. -/
theorem spares_createPool (poolTag : Option NvmKvPoolTag) :
    (deletionSystemDiscipline store calls).Outline (deletionSystemAnswer store calls) (some client)
      (askSystem (.createPool poolTag)) (fun _ => True) fun _ _ => True := by
  refine spares_perform fun state answered reached invariant _ reply => ?_
  obtain ⟨after, made, rfl⟩ := deletionSystemAnswer_eq reply
  rw [answerSystem] at made
  split_ifs at made
  obtain ⟨_, rfl⟩ := Prod.mk.inj (Option.some.inj made)
  refine ⟨{ invariant with books := ?_, pending := ?_ }, .of_same rfl rfl rfl⟩
  · exact invariant.books.createPool poolTag true state.system.poolMedia
  · intro poolId due
    obtain ⟨copied, same⟩ := invariant.pending poolId due
    have used := (invariant.books.pendingInUse poolId due).1
    exact ⟨copied, (if_neg fun fresh => fresh.2 used).trans same⟩

/-- Emptying the entries of pools leaves the others. -/
theorem kvCacheDeletePools_entry (totalEntries : Nat) (table : NvmKvCacheTable) (poolId : UInt32)
    (slot : Nat) :
    kvCacheDeletePools totalEntries table poolId slot = table slot ∨
      (kvCacheDeletePools totalEntries table poolId slot).key = [] := by
  unfold kvCacheDeletePools
  dsimp only
  split_ifs
  · exact .inr rfl
  · exact .inl rfl
  · exact .inr rfl
  · exact .inl rfl

omit [DecidableEq ι] in
/-- Emptying entries keeps a cache sound. -/
theorem CacheSound.deletePools {table : NvmKvCacheTable} (sound : CacheSound store table)
    (totalEntries : Nat) (poolId : UInt32) :
    CacheSound store (kvCacheDeletePools totalEntries table poolId) :=
  sound.emptied (kvCacheDeletePools_entry totalEntries table poolId)

/-- Marking pools and emptying their entries of the cache leaves the thread what it goes by. -/
theorem spares_deletePool (other : poolId ≠ defaultPoolId) :
    (deletionSystemDiscipline store calls).Outline (deletionSystemAnswer store calls) (some client)
      (NvmKvStoreMgr.deletePool store poolId) (fun _ => True) fun _ _ => True := by
  have marked : (deletionSystemDiscipline store calls).Outline (deletionSystemAnswer store calls)
      (some client) (askSystem (.deletePoolLocked poolId)) (fun _ => True) fun _ _ => True := by
    refine spares_perform fun state answered reached invariant _ reply => ?_
    obtain ⟨after, made, rfl⟩ := deletionSystemAnswer_eq reply
    rw [answerSystem] at made
    split_ifs at made
    obtain ⟨_, rfl⟩ := Prod.mk.inj (Option.some.inj made)
    refine ⟨{ invariant with books := ?_ }, .of_same rfl rfl rfl⟩
    exact invariant.books.deletePoolLocked other true state.system.poolMedia
  have emptied : (deletionSystemDiscipline store calls).Outline (deletionSystemAnswer store calls)
      (some client) (askSystem (.cacheDeletePools poolId)) (fun _ => True) fun _ _ => True := by
    refine spares_perform fun state answered reached invariant _ reply => ?_
    obtain ⟨after, made, rfl⟩ := deletionSystemAnswer_eq reply
    obtain ⟨_, rfl⟩ := Prod.mk.inj (Option.some.inj made)
    exact ⟨{ invariant with cached := invariant.cached.deletePools _ _ }, .of_same rfl rfl rfl⟩
  unfold NvmKvStoreMgr.deletePool
  refine Discipline.Outline.bind (outline_liftStore (spares_searches.outline
    (Program.Calls.perform (.inl trivial)))) fun status => ?_
  refine Discipline.Outline.ite (fun _ => fun _ _ _ => trivial) fun _ => ?_
  refine Discipline.Outline.ite (fun _ => fun _ _ _ => trivial) fun _ => ?_
  refine Discipline.Outline.bind marked fun retval => ?_
  cases retval with
  | error code => exact fun _ _ _ => trivial
  | ok done =>
    refine Discipline.Outline.ite (fun _ => ?_) fun _ => fun _ _ _ => trivial
    exact Discipline.Outline.bind emptied fun _ => fun _ _ _ => trivial

/-- A client that marks pools to be deleted hands over no batch. -/
theorem spares_kvPoolDelete (poolId : UInt32) :
    (deletionSystemDiscipline store calls).Outline (deletionSystemAnswer store calls) (some client)
      (NvmKvStoreMgr.kvPoolDelete store poolId) (fun _ => True) fun _ _ => True := by
  unfold NvmKvStoreMgr.kvPoolDelete
  refine Discipline.Outline.ite (fun _ => fun _ _ _ => trivial) fun other => ?_
  refine Discipline.Outline.bind (outline_liftStore (spares_searches.outline
    (reads_kvValidatePoolId poolId).searches)) fun known => ?_
  exact Discipline.Outline.ite (fun _ => fun _ _ _ => trivial) fun _ => spares_deletePool other

/-- The clock goes on. -/
theorem spares_passing (seconds : List Nat) :
    (deletionDiscipline store calls).Outline (answerDeletion store calls) (some client)
      (DeletionCall.passing seconds) (fun _ => True) fun _ _ => True := by
  induction seconds with
  | nil => exact fun _ _ _ => trivial
  | cons more rest inductionHypothesis =>
    refine Discipline.Outline.bind (@spares_perform _ _ _ _ _ _ _ id _ ?_) fun _ =>
      inductionHypothesis
    intro state answered reached invariant _ reply
    obtain ⟨_, rfl⟩ := Prod.mk.inj (Option.some.inj reply)
    exact ⟨{ invariant with }, .of_same rfl rfl rfl⟩

/-- Every call of a client spares the thread. -/
theorem spares_deletionCall :
    (deletionDiscipline store calls).Outline (answerDeletion store calls) (some client)
      ((calls client).program store) (fun _ => True) fun _ _ => True := by
  cases call : calls client with
  | kvPut poolId pair allocation =>
    exact Discipline.Outline.bind (Discipline.Outline.lift (outline_liftStore
      (spares_kvPut_deletion call))) fun _ => fun _ _ _ => trivial
  | kvPoolCreate poolTag =>
    exact Discipline.Outline.bind (Discipline.Outline.lift (spares_createPool poolTag)) fun _ =>
      fun _ _ _ => trivial
  | kvPoolDelete poolId =>
    exact Discipline.Outline.bind (Discipline.Outline.lift (spares_kvPoolDelete poolId)) fun _ =>
      fun _ _ _ => trivial
  | passTimes seconds => exact spares_passing seconds

end Spares

end Nvmkv
