import Nvmkv.BatchAtomicity
import Nvmkv.PreparedVectors
import Nvmkv.ReplaceRoundTrip

/-!
# Caches stay sound

A sound cache remembers keys at addresses of their own, with lengths that were accepted. A
put inserts its pair at the address that its search found, or at the one that the cache gave
it, which was sound; so does a batch with each of its pairs. Deletes and expiry only empty
entries. Every interleaving of these calls therefore keeps a sound cache, and a new one is
sound: what other modules ask of a cache holds in every state that is reached.
-/

namespace Nvmkv

variable {ι : Type} {store : NvmKvStore} {thread : ι}

/-- The calls that insert nothing into the cache. -/
def StoreOp.InsertsNothing : StoreOp → Prop
  | .cachePut _ _ _ _ _ _ _ | .cachePuts _ => False
  | _ => True

/-- Threads owe each other a sound cache and nothing else. -/
def soundness (store : NvmKvStore) (ι : Type) : Discipline StoreOp (StoreState ι) ι where
  invariant := fun state => CacheSound store state.cache
  rely := fun _ _ _ => True
  allowed := fun _ _ _ => True
  checked := fun _ _ _ => True

/-- An insertion that keeps a cache sound. -/
structure NvmKvCachePut.Sound (store : NvmKvStore) (put : NvmKvCachePut) : Prop where
  nonempty : put.key ≠ []
  probed : put.lba ∈ store.probes put.poolId put.key
  bounded : put.valueLen ≤ nvmKvMaxValueSize

/-- So does a list of them. Induction follows the list. -/
theorem CacheSound.puts {table : NvmKvCacheTable} (sound : CacheSound store table)
    {puts : List NvmKvCachePut} (all : ∀ put ∈ puts, put.Sound store) (bits time : Nat) :
    CacheSound store (kvCachePuts bits table time puts) := by
  induction puts generalizing table with
  | nil => exact sound
  | cons put rest inductionHypothesis =>
    obtain ⟨nonempty, probed, bounded⟩ := all put List.mem_cons_self
    exact inductionHypothesis (sound.put nonempty probed bounded) fun other member =>
      all other (List.mem_cons_of_mem _ member)

/-- A call that inserts nothing leaves the cache sound: it leaves the cache, or empties entries
of it. -/
theorem StoreOp.InsertsNothing.sound {op : StoreOp} (inserts : op.InsertsNothing)
    {state after : StoreState ι} {answered : StoreRes op} (sound : CacheSound store state.cache)
    (reply : answer store thread op state = some (answered, after)) :
    CacheSound store after.cache := by
  have searched : op.Searches → CacheSound store after.cache := fun searches => by
    rw [searches.unchanged reply]
    exact sound
  cases op with
  | checkEntry lba | awaitEntry lba | deleteEntry lba => exact searched (.inr trivial)
  | cachePut key poolId valueLen absExpiry genCount lba context => exact inserts.elim
  | cachePuts puts => exact inserts.elim
  | never => cases reply
  | cacheDelete key poolId =>
    obtain ⟨_, rfl⟩ := Prod.mk.inj (Option.some.inj reply)
    exact sound.delete _ _ _
  | cacheDeleteLbas lbaList =>
    obtain ⟨_, rfl⟩ := Prod.mk.inj (Option.some.inj reply)
    refine sound.emptied fun slot => ?_
    dsimp only
    rw [kvCacheDeleteLbas]
    dsimp only
    split_ifs
    · exact .inr rfl
    · exact .inl rfl
  | _ =>
    obtain ⟨_, rfl⟩ := Prod.mk.inj (Option.some.inj reply)
    exact sound

section Outlines

variable {poolId : UInt32} {pair : NvmKvIovec}

/-- Whatever inserts nothing keeps the discipline. -/
theorem ignores_insertsNothing (thread : ι) :
    (soundness store ι).Ignores (answer store) thread StoreOp.InsertsNothing fun _ => True where
  stable := fun _ _ _ _ _ _ => trivial
  kept := fun inserts sound _ =>
    ⟨trivial, fun _ reply => ⟨inserts.sound sound reply, fun _ _ => trivial, trivial⟩⟩

/-- What searches inserts nothing. -/
theorem StoreOp.Searches.insertsNothing {op : StoreOp} (searches : op.Searches) :
    op.InsertsNothing := by
  cases op with
  | cachePut key poolId valueLen absExpiry genCount lba context =>
    exact searches.elim (fun reads => reads) fun among => among
  | cachePuts puts => exact searches.elim (fun reads => reads) fun among => among
  | _ => trivial

/-- Neither does the handing over of a batch. -/
theorem StoreOp.Batches.insertsNothing {op : StoreOp} (batches : op.Batches) :
    op.InsertsNothing := by
  cases op with
  | batchAtomic iovec => trivial
  | never => trivial
  | _ => exact batches.elim

/-- The part of a delete behind its address. -/
theorem insertsNothing_kvDeleteAt {key : List UInt8} {lba : Nat} {buf : Option Region}
    {allocated : Bool} :
    (kvDeleteAt store poolId key lba buf allocated).Calls StoreOp.InsertsNothing := by
  have searches : ∀ {α : Type} {program : StoreM α}, program.Calls StoreOp.Searches →
      program.Calls StoreOp.InsertsNothing :=
    fun calls => calls.mono fun _ => StoreOp.Searches.insertsNothing
  have trims : ∀ lba, (kvDeleteTrim store lba allocated).Calls StoreOp.InsertsNothing := fun lba =>
    .bind ((batches_deleteRange _ _ _).mono fun _ => StoreOp.Batches.insertsNothing) fun _ =>
      .bind (.perform trivial) fun _ => trivial
  refine .bind (searches (searches_insertEntry lba)) fun wait => ?_
  split_ifs
  · cases buf with
    | none => exact .bind (.perform trivial) fun _ => trivial
    | some buf =>
      refine .bind (searches (reads_kvReadMedia _ _ _ _ _ _).searches) fun read => ?_
      cases read with
      | error code => exact .bind (.perform trivial) fun _ => trivial
      | ok read => exact trims _
  · exact trims lba

/-- A delete inserts nothing. -/
theorem insertsNothing_kvDelete (poolId : UInt32) (key : List UInt8) (buf : Option Region)
    (allocated : Bool) :
    (kvDelete store poolId key buf allocated).Calls StoreOp.InsertsNothing := by
  have reads : ∀ {α : Type} {program : StoreM α}, program.Calls StoreOp.Reads →
      program.Calls StoreOp.InsertsNothing :=
    fun calls => calls.searches.mono fun _ => StoreOp.Searches.insertsNothing
  have search : (kvDeleteSearch store poolId key buf allocated).Calls StoreOp.InsertsNothing := by
    cases buf with
    | none => trivial
    | some buf =>
      refine .bind (reads (reads_kvReadMedia _ _ _ _ _ _)) fun read => ?_
      cases read with
      | error code => trivial
      | ok read => exact insertsNothing_kvDeleteAt
  refine .bind (reads (reads_kvValidatePoolId _)) fun known => .ite trivial ?_
  refine .ite (.bind (.perform trivial) fun entry => ?_) search
  cases entry with
  | none => exact search
  | some entry => exact insertsNothing_kvDeleteAt

/-- A deletion of vectors inserts nothing. -/
theorem insertsNothing_batchDeleteSync (iovec : List NvmIovec) (deleteFromCache : Bool) :
    (store.batchDeleteSync iovec deleteFromCache).Calls StoreOp.InsertsNothing := by
  have searches : ∀ {program : StoreM Unit}, program.Calls StoreOp.Searches →
      program.Calls StoreOp.InsertsNothing :=
    fun calls => calls.mono fun _ => StoreOp.Searches.insertsNothing
  refine .bind (searches (searches_insertEntries _)) fun _ => ?_
  refine .bind ((batches_nvmWritev _).mono fun _ => StoreOp.Batches.insertsNothing)
    fun retCode => ?_
  refine .ite (.bind (.perform trivial) fun _ => ?_) ?_
  · exact .bind (searches (searches_deleteLbas _)) fun _ => trivial
  · exact .bind (searches (searches_deleteLbas _)) fun _ => trivial

/-- What a sound cache tells of a key is an address of the key. -/
theorem learns_askCacheGet (thread : ι) (nonempty : pair.key ≠ []) :
    (soundness store ι).Learns (answer store) thread (fun answered =>
      answered.1 = true → answered.2.contextEntry.lba ∈ store.probes poolId pair.key)
      (askCacheGet pair.key poolId) := by
  refine Discipline.Learns.perform fun state answered reached sound _ reply hit => ?_
  obtain ⟨here, _⟩ := Prod.mk.inj (Option.some.inj reply)
  obtain ⟨context, same⟩ : ∃ context, answered = (true, context) :=
    ⟨answered.2, Prod.ext hit rfl⟩
  rw [same] at here ⊢
  exact (CacheSound.found sound nonempty here).1

/-- Searching keeps the discipline. -/
theorem ignores_searches (thread : ι) :
    (soundness store ι).Ignores (answer store) thread StoreOp.Searches fun _ => True where
  stable := (ignores_insertsNothing thread).stable
  kept := fun searches => (ignores_insertsNothing thread).kept searches.insertsNothing

/-- A call that keeps every sound cache keeps the discipline. -/
theorem sound_ask (thread : ι) {op : StoreOp}
    (keeps : ∀ state answered reached, CacheSound store state.cache →
      answer store thread op state = some (answered, reached) → CacheSound store reached.cache) :
    (soundness store ι).Outline (answer store) thread (ask op) (fun _ => True) fun _ _ => True :=
  Discipline.Outline.perform (ignores_insertsNothing thread).stable fun state sound _ =>
    ⟨trivial, fun answered reached _ reply =>
      ⟨keeps state answered reached sound reply, fun _ _ => trivial, trivial⟩⟩

/-- A put inserts its pair at the address that it was given by the cache or the search. -/
theorem sound_kvPut (thread : ι) (poolId : UInt32) (pair : NvmKvIovec) (allocation : Allocation) :
    (soundness store ι).Outline (answer store) thread (kvPut store poolId pair allocation)
      (fun _ => True) fun _ _ => True := by
  have ignores := @ignores_insertsNothing ι store thread
  refine @Discipline.Ignores.outline_kvPut_at _ _ _ _ _ _ _ _ _ _
    (fun lba => lba ∈ store.probes poolId pair.key) (ignores_searches thread) ?_ ?_ ?_
  · intro validKey
    have nonempty := List.length_pos_iff.mp (of_decide_eq_true validKey).1
    have asks : (askCacheGet pair.key poolId).Calls StoreOp.InsertsNothing :=
      Program.Calls.perform trivial
    exact (ignores.outline asks).learns (learns_askCacheGet thread nonempty)
  · exact fun buf => (ignores_searches thread).returns (searches_kvGenLba none)
      (returns_kvGenLba none)
  intro placed context valid probed
  obtain ⟨validKey, validValue⟩ := Bool.and_eq_true_iff.mp valid
  have nonempty := List.length_pos_iff.mp (of_decide_eq_true validKey).1
  have bounded := (of_decide_eq_true validValue).2.1
  unfold kvPutWrite
  cases allocation.iovec with
  | none => exact fun _ _ _ => trivial
  | some memory =>
    dsimp only
    split
    · exact fun _ _ _ => trivial
    refine Discipline.Outline.bind ((ignores_searches thread).outline
      (reads_kvProcessForWrite _ _ _ _ _ _).searches) fun written => ?_
    refine Discipline.Outline.bind (ignores.outline ((batches_nvmWritev _).mono fun _ =>
      StoreOp.Batches.insertsNothing)) fun retCode => ?_
    cases retCode with
    | error code => exact fun _ _ _ => trivial
    | ok done =>
      refine Discipline.Outline.ite (fun _ => ?_) fun _ => fun _ _ _ => trivial
      refine Discipline.Outline.bind (sound_ask thread ?_) fun _ => fun _ _ _ => trivial
      intro state answered reached sound reply
      obtain ⟨_, rfl⟩ := Prod.mk.inj (Option.some.inj reply)
      exact sound.put nonempty probed bounded

/-- The question to the cache for one pair of a batch. -/
theorem learns_batchCached (thread : ι) (state : BatchState) (nonempty : pair.key ≠ []) :
    (soundness store ι).Learns (answer store) thread (fun asked => ∀ cached, asked = .ok cached →
      cached.existsInCache = true →
        cached.context.contextEntry.lba ∈ store.probes poolId pair.key)
      (batchCached store poolId pair state) := by
  have missed : ∀ (context : NvmKvCacheContext) (insertLba : Bool),
      ∀ cached, (Except.ok ⟨false, context, insertLba⟩ : Except NvmErrorCode BatchCached) =
        .ok cached → cached.existsInCache = true →
          cached.context.contextEntry.lba ∈ store.probes poolId pair.key := by
    rintro context insertLba _ ⟨⟩ hit
    cases hit
  unfold batchCached
  split_ifs
  · refine Discipline.Learns.bind (learns_askCacheGet thread nonempty) fun asked told => ?_
    obtain ⟨found, context⟩ := asked
    dsimp only at told ⊢
    split_ifs with hit
    · rintro _ ⟨⟩
    · split
      · refine Discipline.Learns.bind (.of_returns .any) fun wait _ => ?_
        split_ifs
        · exact Discipline.Learns.bind (.of_returns .any) fun _ _ => missed _ _
        · rintro _ ⟨⟩ _
          exact told hit
      · rintro _ ⟨⟩ _
        exact told hit
    · exact missed _ _
    · exact missed _ _
  · exact missed _ _

/-- A pair of a batch adds an insertion at an address of its key. -/
theorem learns_batchPair (thread : ι) (poolId : UInt32) (pair : NvmKvIovec) (buf : PoolBuf)
    {state : BatchState} (sound : ∀ put ∈ state.puts, put.Sound store) :
    (soundness store ι).Learns (answer store) thread
      (fun prepared => ∀ put ∈ prepared.2.puts, put.Sound store)
      (batchPair store poolId pair buf state) := by
  unfold batchPair
  split
  · exact sound
  rename_i accepted
  simp only [Bool.or_eq_true, Bool.not_eq_true', not_or, Bool.not_eq_false] at accepted
  have nonempty := List.length_pos_iff.mp (of_decide_eq_true accepted.1).1
  have bounded := (of_decide_eq_true accepted.2).2.1
  refine Discipline.Learns.bind (@learns_batchCached _ _ poolId _ thread state nonempty)
    fun asked told => ?_
  cases asked with
  | error code => exact sound
  | ok cached =>
    have addressed : ∀ buf, (soundness store ι).Learns (answer store) thread
        (fun placed => placed.retCode = .ok () →
          placed.keyHashVal ∈ store.probes poolId pair.key)
        (batchLba store poolId pair cached buf state.lbaList) := by
      intro buf
      unfold batchLba
      split_ifs with hit
      · exact fun _ => told cached rfl hit
      · exact .of_returns (returns_kvGenLba _)
    dsimp only
    split
    · exact sound
    · split_ifs
      · exact sound
      refine Discipline.Learns.bind (addressed _) fun placed probed => ?_
      cases code : placed.retCode with
      | error code => exact sound
      | ok done =>
        unfold batchPrepare
        dsimp only
        split
        · exact sound
        · split_ifs
          · exact sound
          refine Discipline.Learns.bind (.of_returns .any) fun written _ => ?_
          intro put member
          rcases List.mem_append.mp member with before | here
          · exact sound put before
          · obtain rfl := List.mem_singleton.mp here
            exact ⟨nonempty, probed code, bounded⟩

/-- So do all pairs of a batch. Induction follows the pairs. -/
theorem learns_batchPairs (thread : ι) (poolId : UInt32) (buf : Nat → PoolBuf) (i : Nat)
    (pairs : List NvmKvIovec) {state : BatchState} (sound : ∀ put ∈ state.puts, put.Sound store) :
    (soundness store ι).Learns (answer store) thread
      (fun prepared => ∀ put ∈ prepared.2.puts, put.Sound store)
      (batchPairs store poolId buf i pairs state) := by
  induction pairs generalizing i state with
  | nil => exact sound
  | cons pair rest inductionHypothesis =>
    refine Discipline.Learns.bind (learns_batchPair thread poolId pair (buf i) sound)
      fun prepared kept => ?_
    obtain ⟨code, state⟩ := prepared
    cases code with
    | error code => exact kept
    | ok done => exact inductionHypothesis (i + 1) kept

/-- The trims and writes of a batch insert nothing. -/
theorem insertsNothing_batchWrite (state : BatchState) :
    (batchWrite store state).Calls StoreOp.InsertsNothing := by
  have vectors : ∀ iovec, (nvmWritev iovec).Calls StoreOp.InsertsNothing := fun iovec =>
    (batches_nvmWritev iovec).mono fun _ => StoreOp.Batches.insertsNothing
  refine .ite (vectors _) (.bind (vectors _) fun retCode => ?_)
  cases retCode with
  | error code => trivial
  | ok done =>
    refine Program.Calls.ite (vectors _) ?_
    trivial

/-- A batch inserts what its pairs have prepared. -/
theorem sound_kvBatchPut (thread : ι) (poolId : UInt32) (kvIov : List NvmKvIovec)
    (allocation : BatchAllocation) :
    (soundness store ι).Outline (answer store) thread (kvBatchPut store poolId kvIov allocation)
      (fun _ => True) fun _ _ => True := by
  have ignores := @ignores_insertsNothing ι store thread
  have released : ∀ state : BatchState, (soundness store ι).Outline (answer store) thread
      (batchRelease state) (fun _ => True) fun _ _ => True :=
    fun state => (ignores_searches thread).outline (searches_batchRelease state)
  refine Discipline.Outline.bind ((ignores_searches thread).outline
    (reads_kvValidatePoolId poolId).searches) fun known => ?_
  refine Discipline.Outline.ite (fun _ => fun _ _ _ => trivial) fun _ => ?_
  refine Discipline.Outline.ite (fun _ => fun _ _ _ => trivial) fun _ => ?_
  cases allocation.iovec with
  | none => exact fun _ _ _ => trivial
  | some arrays =>
    have searches := @searches_batchPairs store poolId allocation.buf 0 kvIov
      (.initial arrays.1 arrays.2)
    have prepared := ((ignores_searches thread).outline searches).learns
      (learns_batchPairs thread poolId allocation.buf 0 kvIov (by rintro put ⟨⟩))
    refine Discipline.Outline.bind prepared fun ended => ?_
    refine Discipline.Outline.given fun all => ?_
    obtain ⟨code, state⟩ := ended
    cases code with
    | error code => exact Discipline.Outline.bind (released state) fun _ => fun _ _ _ => trivial
    | ok done =>
      have finished : (soundness store ι).Outline (answer store) thread (batchFinish store state)
          (fun _ => True) fun _ _ => True := by
        refine Discipline.Outline.bind (ignores.outline (insertsNothing_batchWrite state))
          fun retCode => ?_
        cases retCode with
        | error code => exact fun _ _ _ => trivial
        | ok done =>
          refine Discipline.Outline.ite (fun _ => ?_) fun _ => fun _ _ _ => trivial
          refine Discipline.Outline.bind (sound_ask thread ?_) fun _ => fun _ _ _ => trivial
          intro before answered reached sound reply
          obtain ⟨_, rfl⟩ := Prod.mk.inj (Option.some.inj reply)
          exact sound.puts all _ _
      exact Discipline.Outline.bind finished fun retCode =>
        Discipline.Outline.bind (released state) fun _ => fun _ _ _ => trivial

/-- Every interleaving of puts, batches, deletes and deletions of expired pairs keeps a sound
cache. -/
theorem cache_stays_sound [DecidableEq ι] (store : NvmKvStore) (calls : ι → StoreCall)
    {state : StoreState ι} (sound : CacheSound store state.cache) {config : StoreConfig ι}
    (reached : Config.Reachable (answer store) (fun _ _ _ => True) (startCalls store state calls)
      config) : CacheSound store config.shared.cache := by
  refine (@Discipline.sound _ _ _ _ _ (soundness store ι) (answer store) _ (fun _ _ _ => True)
    (startCalls store state calls) config sound ?_ (fun _ _ _ _ _ _ _ _ => trivial) reached).1
  intro thread
  refine ⟨fun _ => True, trivial, ?_⟩
  change (soundness store ι).Outline (answer store) thread ((calls thread).program store) _ _
  have ignores := @ignores_insertsNothing ι store thread
  cases calls thread with
  | kvPut poolId pair allocation =>
    exact Discipline.Outline.bind (sound_kvPut thread poolId pair allocation) fun _ =>
      fun _ _ _ => trivial
  | kvBatchPut poolId kvIov allocation =>
    exact Discipline.Outline.bind (sound_kvBatchPut thread poolId kvIov allocation) fun _ =>
      fun _ _ _ => trivial
  | kvDelete poolId key buf allocated =>
    exact Discipline.Outline.bind (ignores.outline (insertsNothing_kvDelete poolId key buf
      allocated)) fun _ => fun _ _ _ => trivial
  | batchDeleteSync iovec deleteFromCache =>
    exact Discipline.Outline.bind (ignores.outline (insertsNothing_batchDeleteSync iovec
      deleteFromCache)) fun _ => fun _ _ _ => trivial

end Outlines

end Nvmkv
