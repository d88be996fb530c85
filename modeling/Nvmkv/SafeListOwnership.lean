import Nvmkv.SafeListOutlines

/-!
# Who owns an address of the safe list

A call that writes or trims at an address has inserted it, and a call removes only
what it has inserted. Four situations break this. A put that has no memory for its
pair releases address 0 in place of the address it took. A batch put that holds
addresses takes its one flag to mean that the address it reads next is held as
well. A delete that had to wait goes on at the address where it finds its key then.
A put whose count of vectors is too large hands over vectors that nobody filled.

The condition below excludes each of these where it arises and nothing else. The
calls then keep exact accounts of their addresses, in every interleaving.
-/

namespace Nvmkv

variable {ι : Type}

/-- Some of the vectors with which a pair is put at an address: a trim of what an older one
had more, and the writes of the pair. -/
def OfPut (store : NvmKvStore) (poolId : UInt32) (pair : NvmKvIovec) (lba : Nat)
    (vectors : List NvmIovec) : Prop :=
  ∃ trimLen trims buf clock,
    kvProcessForTrim store.capabilities pair.valueLen trimLen lba = .ok trims ∧
      vectors ⊆ trims ++ putIovec store poolId pair
        (writeLayout store.capabilities pair.key.length pair.value pair.valueLen) buf clock lba

/-- A batch of a call is for the pairs at addresses that are held: a put writes its pair at one
of them, a batch put each of its pairs, a delete trims the pair at one of them, and the trims of
an expired pair start at its address. -/
def StoreCall.HandsOwned (store : NvmKvStore) (held : Nat → Prop) (iovec : List NvmIovec) :
    StoreCall → Prop
  | .kvPut poolId pair _ => ∃ lba, held lba ∧ OfPut store poolId pair lba iovec
  | .kvBatchPut poolId kvIov _ => ∀ vector ∈ iovec, ∃ lba, held lba ∧
      ∃ pair ∈ kvIov, OfPut store poolId pair lba [vector]
  | .kvDelete _ _ _ _ => ∃ lba, held lba ∧ TrimsPair store lba iovec
  | .batchDeleteSync _ _ => ∀ vector ∈ iovec, held vector.iovLba

/-- The writes and trims of a batch are for pairs whose addresses the thread holds, and what it
removes from the safe list it holds. -/
def StoreOp.Owned (store : NvmKvStore) (call : StoreCall) (thread : ι) (state : StoreState ι) :
    StoreOp → Prop
  | .batchAtomic iovec =>
      call.HandsOwned store (fun lba => state.safeLbaList lba = some thread) iovec
  | .deleteEntry lba => state.safeLbaList lba = some thread
  | _ => True

/-- An address is the first one of a key that the thread does not hold, if it does not
hold this one either. -/
def FirstUnheld (store : NvmKvStore) (thread : ι) (state : StoreState ι) (poolId : UInt32)
    (key : List UInt8) (lba : Nat) : Prop :=
  state.safeLbaList lba ≠ some thread ∧ ∃ chosen rest,
    store.probes poolId key = chosen ++ lba :: rest ∧
      ∀ earlier ∈ chosen, state.safeLbaList earlier = some thread

/-- A put takes no address at once that it has no memory for, unless it is address 0. -/
def PutKeepsOwnership (store : NvmKvStore) (pair : NvmKvIovec) (allocation : Allocation)
    (state : StoreState ι) : StoreOp → Prop
  | .checkEntry lba => state.safeLbaList lba = none →
      ∀ code, kvAllocForWrite store.capabilities pair.key.length pair.value pair.valueLen
        allocation.buf = .error code → lba = 0
  | _ => True

/-- A batch put that holds addresses and reads the first address of a key that it does
not hold finds a pair of the key there that is live and not to be replaced. -/
def BatchKeepsOwnership (store : NvmKvStore) (thread : ι) (poolId : UInt32)
    (kvIov : List NvmKvIovec) (state : StoreState ι) : StoreOp → Prop
  | .readv iovec => (∃ held, state.safeLbaList held = some thread) →
      ∀ vector ∈ iovec, ∀ pair ∈ kvIov,
        FirstUnheld store thread state poolId pair.key vector.iovLba →
          pair.replace = false ∧ holds store state.media poolId pair.key vector.iovLba = true ∧
            pairExpired store state.clock (storedHeader store state.media vector.iovLba) = false
  | _ => True

/-- A delete that holds an address finds its key at no other one. -/
def DeleteKeepsOwnership (store : NvmKvStore) (thread : ι) (poolId : UInt32) (key : List UInt8)
    (state : StoreState ι) : StoreOp → Prop
  | .readv iovec => (∃ held, state.safeLbaList held = some thread) →
      ∀ vector ∈ iovec, holds store state.media poolId key vector.iovLba = true →
        state.safeLbaList vector.iovLba = some thread
  | _ => True

/-- The condition on the calls of a thread under which addresses keep their owners. -/
def StoreCall.KeepsOwnership (store : NvmKvStore) (thread : ι) (op : StoreOp)
    (state : StoreState ι) : StoreCall → Prop
  | .kvPut _ pair allocation => PutKeepsOwnership store pair allocation state op
  | .kvBatchPut poolId kvIov _ => BatchKeepsOwnership store thread poolId kvIov state op
  | .kvDelete poolId key _ _ => DeleteKeepsOwnership store thread poolId key state op
  | .batchDeleteSync _ _ => True

/-- No put announces more vectors than it fills. -/
def StoreCall.VectorsFilled (store : NvmKvStore) : StoreCall → Prop
  | .kvPut _ pair _ =>
      Nvmkv.VectorsFilled store.capabilities pair.key.length pair.value pair.valueLen
  | .kvBatchPut _ kvIov _ => ∀ pair ∈ kvIov,
      Nvmkv.VectorsFilled store.capabilities pair.key.length pair.value pair.valueLen
  | _ => True

/-- What threads owe each other with respect to the safe list: their addresses stay
theirs. -/
def ownership (store : NvmKvStore) (calls : ι → StoreCall) :
    Discipline StoreOp (StoreState ι) ι where
  invariant := fun _ => True
  rely := fun thread before after =>
    (∀ lba, after.safeLbaList lba = some thread ↔ before.safeLbaList lba = some thread) ∧
      after.clock = before.clock
  allowed := fun thread op state => (calls thread).KeepsOwnership store thread op state
  checked := fun thread op state => op.Owned store (calls thread) thread state

variable {store : NvmKvStore} {calls : ι → StoreCall}

/-- The safe list is protected: an address is taken from nobody who holds it. -/
theorem ownership_protects : ProtectsSafeList store (ownership store calls) where
  kept := fun relied => relied.1 _
  still := fun _ _ => ⟨fun _ => Iff.rfl, rfl⟩
  reads := by
    intro thread op state reads
    cases op with
    | batchAtomic iovec => exact reads.elim
    | deleteEntry lba => exact reads.elim
    | _ => trivial
  asks := fun _ _ _ => ⟨trivial, trivial⟩
  takes := by
    intro thread lba state _ _ free
    exact ⟨trivial, fun other apart => ⟨StoreState.hold_others free apart, rfl⟩⟩
  removes := by
    intro thread lba state _ own
    exact ⟨own, trivial, fun other apart => ⟨StoreState.release_others own apart, rfl⟩⟩

variable {thread : ι}

/-- A batch for pairs at addresses that are held may be handed to the device. -/
theorem owned_nvmWritev {lbas : List Nat} {iovec : List NvmIovec}
    (inside : (calls thread).HandsOwned store (· ∈ lbas) iovec) :
    (ownership store calls).Outline (answer store) thread (nvmWritev iovec)
      (Account thread lbas) fun _ => Account thread lbas := by
  have handed : (ownership store calls).Outline (answer store) thread
      (nvmBatchAtomicOperations iovec) (Account thread lbas) fun _ => Account thread lbas := by
    refine Discipline.Outline.perform ownership_protects.stable_account ?_
    intro state _ account
    refine ⟨?_, ?_⟩
    · have held : (fun lba => state.safeLbaList lba = some thread) = (· ∈ lbas) :=
        funext fun lba => propext (account.2 lba)
      change (calls thread).HandsOwned store (fun lba => state.safeLbaList lba = some thread) iovec
      rw [held]
      exact inside
    · intro answered reached _ reply
      obtain ⟨_, rfl⟩ := Prod.mk.inj (Option.some.inj reply)
      exact ⟨trivial, fun _ _ => ⟨fun _ => Iff.rfl, rfl⟩, account⟩
  exact Discipline.Outline.bind handed fun done =>
    Discipline.Outline.ite (fun _ => fun _ _ account => account) fun _ => fun _ _ account => account

/-- A call on the cache alone may be made at any time. -/
theorem owned_cache {op : StoreOp} {lbas : List Nat}
    (caches : ∀ (state after : StoreState ι) answered,
      answer store thread op state = some (answered, after) →
        after.safeLbaList = state.safeLbaList ∧ after.clock = state.clock)
    (unchecked : ∀ state : StoreState ι, op.Owned store (calls thread) thread state) :
    (ownership store calls).Outline (answer store) thread (ask op) (Account thread lbas)
      fun _ => Account thread lbas := by
  refine Discipline.Outline.perform ownership_protects.stable_account ?_
  intro state _ account
  refine ⟨unchecked state, ?_⟩
  intro answered reached _ reply
  obtain ⟨list, clock⟩ := caches state reached answered reply
  refine ⟨trivial, fun other _ => ⟨fun lba => by rw [list], clock⟩, account.1, ?_⟩
  rw [list]
  exact account.2

/-- What is remembered changes nothing of what is held. -/
theorem owned_askCachePut {key : List UInt8} {poolId : UInt32}
    {valueLen absExpiry genCount lba : Nat} {context : NvmKvCacheContext} {lbas : List Nat} :
    (ownership store calls).Outline (answer store) thread
      (askCachePut key poolId valueLen absExpiry genCount lba context) (Account thread lbas)
      fun _ => Account thread lbas := by
  refine owned_cache ?_ fun _ => trivial
  intro state after answered reply
  obtain ⟨_, rfl⟩ := Prod.mk.inj (Option.some.inj reply)
  exact ⟨rfl, rfl⟩

/-- A put writes its pair at the address that it holds. -/
theorem owned_kvPutWrite {poolId : UInt32} {pair : NvmKvIovec} {allocation : Allocation}
    {placed : GenLba} {memory : Option (Nat → NvmIovec)} {context : NvmKvCacheContext}
    (call : calls thread = .kvPut poolId pair allocation)
    (filled : (calls thread).VectorsFilled store) (held : placed.insertLba = true) :
    (ownership store calls).Outline (answer store) thread
      (kvPutWrite store poolId pair
        (writeLayout store.capabilities pair.key.length pair.value pair.valueLen) placed memory
        context)
      (Account thread [placed.keyHashVal]) (PutHeld thread) := by
  have ends : ∀ (retCode : Except NvmErrorCode Unit) (state : StoreState ι),
      Account thread [placed.keyHashVal] state →
        PutHeld thread ⟨retCode, placed.keyHashVal, placed.insertLba⟩ state := by
    intro retCode state account
    rw [PutHeld, if_pos held]
    exact account
  unfold kvPutWrite
  cases memory with
  | none => exact fun state _ => ends _ state
  | some memory =>
    dsimp only
    split
    · exact fun state _ => ends _ state
    · rename_i trims trimmed
      refine Discipline.Outline.bind (ownership_protects.readsFreely.outline_reads_returns
        (reads_kvProcessForWrite _ _ _ _ _ _) (returns_kvProcessForWrite _ _ _ _ _)
        ownership_protects.stable_account) fun prepared => ?_
      refine Discipline.Outline.given fun ⟨clock, same⟩ => ?_
      subst same
      obtain ⟨layout, laid⟩ : ∃ layout, layout =
          writeLayout store.capabilities pair.key.length pair.value pair.valueLen := ⟨_, rfl⟩
      rw [← laid]
      have enough : layout.iovCount ≤ (trims ++ putIovec store poolId pair layout placed.buf clock
          placed.keyHashVal).length := by
        rw [call] at filled
        have announced : layout.iovCount ≤
            vectorsFilled store.capabilities layout pair.valueLen := laid ▸ filled
        rw [List.length_append, putIovec, pairIovec_length]
        omega
      have handed : (calls thread).HandsOwned store (· ∈ [placed.keyHashVal])
          ((trims ++ putIovec store poolId pair layout placed.buf clock placed.keyHashVal).take
            layout.iovCount) := by
        rw [call]
        refine ⟨_, List.mem_singleton_self _, placed.trimLen, trims, placed.buf, clock, trimmed, ?_⟩
        rw [← laid]
        exact List.take_subset _ _
      dsimp only
      rw [handedIovec_take memory _ enough]
      refine Discipline.Outline.bind (owned_nvmWritev handed) fun retCode => ?_
      cases retCode with
      | error code => exact fun state _ => ends _ state
      | ok done =>
        refine Discipline.Outline.ite (fun _ => ?_) fun _ => fun state _ => ends _ state
        exact Discipline.Outline.bind owned_askCachePut fun _ => fun state _ => ends _ state

/-- A put begins and ends without an address. -/
theorem owned_kvPut {poolId : UInt32} {pair : NvmKvIovec} {allocation : Allocation}
    (call : calls thread = .kvPut poolId pair allocation)
    (filled : (calls thread).VectorsFilled store) :
    (ownership store calls).Outline (answer store) thread (kvPut store poolId pair allocation)
      (Account thread []) fun _ => Account thread [] := by
  refine ownership_protects.outline_kvPut ?_ (fun _ => .anything _ _) ?_
  · intro layout unused placed context accepted allocated held _
    obtain ⟨rfl, _⟩ := layout_of_alloc allocated
    exact owned_kvPutWrite call filled held
  · intro code failed lba state allowed free
    have keeps : (calls thread).KeepsOwnership store thread (.checkEntry lba) state := allowed
    rw [call] at keeps
    exact keeps free code failed

/-- So does a delete. -/
theorem owned_kvDelete {poolId : UInt32} {key : List UInt8} {buf : Option Region}
    {allocated : Bool} (call : calls thread = .kvDelete poolId key buf allocated) :
    (ownership store calls).Outline (answer store) thread (kvDelete store poolId key buf allocated)
      (Account thread []) fun _ => Account thread [] := by
  refine ownership_protects.outline_kvDelete ?_ ?_ ?_
  · intro region lba state allowed holding held
    have keeps : (calls thread).KeepsOwnership store thread
      (.readv [⟨poolBuffer region, store.sectorSize, lba, .write⟩]) state := allowed
    rw [call] at keeps
    exact keeps holding _ (List.mem_singleton_self _) held
  · intro keyHash
    refine ownership_protects.outline_deleteRange fun vectors inside => owned_nvmWritev ?_
    rw [call]
    exact ⟨keyHash, List.mem_singleton_self _, inside.pair⟩
  · refine owned_cache ?_ fun _ => trivial
    intro state after answered reply
    obtain ⟨_, rfl⟩ := Prod.mk.inj (Option.some.inj reply)
    exact ⟨rfl, rfl⟩

/-- The deletion of expired pairs trims at the addresses that it has inserted. -/
theorem owned_batchDeleteSync {iovec : List NvmIovec} {deleteFromCache : Bool}
    (call : calls thread = .batchDeleteSync iovec deleteFromCache) :
    (ownership store calls).Outline (answer store) thread
      (store.batchDeleteSync iovec deleteFromCache) (Account thread [])
      fun _ => Account thread [] := by
  have reversed : ∀ state : StoreState ι,
      Account thread ((iovec.map (·.iovLba)).reverse ++ []) state →
        Account thread (iovec.map (·.iovLba)) state := by
    intro state account
    rw [List.append_nil] at account
    exact account.perm (List.reverse_perm _)
  have released : ∀ retCode : Except NvmErrorCode Unit,
      (ownership store calls).Outline (answer store) thread
        (do
          deleteLbas (iovec.map (·.iovLba))
          pure retCode) (Account thread (iovec.map (·.iovLba))) fun _ => Account thread [] := by
    intro retCode
    refine Discipline.Outline.bind (Discipline.Outline.strengthen
      (@ProtectsSafeList.outline_deleteLbas _ _ _ ownership_protects thread []
        (iovec.map (·.iovLba))) ?_) fun _ => fun _ _ account => account
    intro state _ account
    rwa [List.append_nil]
  refine Discipline.Outline.bind (ownership_protects.outline_insertEntries.weaken
    fun _ state _ => reversed state) fun _ => ?_
  refine Discipline.Outline.bind (owned_nvmWritev ?_) fun retCode => ?_
  · rw [call]
    exact fun vector member => List.mem_map_of_mem member
  · refine Discipline.Outline.ite (fun _ => ?_) fun _ => released retCode
    refine Discipline.Outline.bind (owned_cache ?_ fun _ => trivial) fun _ => released retCode
    intro state after answered reply
    obtain ⟨_, rfl⟩ := Prod.mk.inj (Option.some.inj reply)
    exact ⟨rfl, rfl⟩

end Nvmkv
