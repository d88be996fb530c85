import Nvmkv.Placement

/-!
# A put with no other call in progress

What `kv_put` does when its caller is alone and the safe list is free. A store
with a cache answers for a remembered key without a search; otherwise the search
ends as `place` says. Either way the put is refused, or it is one atomic batch at
the address found. `PutEffect` lists the ends with what was decided on the way,
and `run_kvPut` shows that the program always comes to one of them.

One of the ends does not restore the safe list: a put of a remembered key that
cannot be allocated for has taken the remembered address and releases another.
-/

namespace Nvmkv

variable {ι : Type}

/-- The address a search ends at, if the pair is to be written there, and the
length of a longer value that it replaces. -/
def Place.target (store : NvmKvStore) (media : Media) (valueLen : Nat) :
    Place → Option (Nat × Nat)
  | .fresh lba => some (lba, 0)
  | .revived lba => some (lba, 0)
  | .replaced lba => some (lba, replacedLen (storedHeader store media lba) valueLen)
  | .refused _ => none
  | .full => none

/-- The validation of a put in a state. -/
def putAccepted (store : NvmKvStore) (state : StoreState ι) (poolId : UInt32)
    (pair : NvmKvIovec) : Bool :=
  decide (poolStatus state.inUse state.deleted poolId = .poolInUse ∨ poolId = 0xFFFFFFFF) &&
    kvValidateKey pair.key && kvValidateValue store false pair.valueLen

/-- The write buffer with the complete header of a pair put at a time. -/
def putHeader (store : NvmKvStore) (poolId : UInt32) (pair : NvmKvIovec) (layout : WriteLayout)
    (buf : Region) (clock : Nat) : Region :=
  writeHeader buf poolId pair.key pair.valueLen layout.valueOffset pair.genCount
    (absoluteExpiry (putExpiry store pair) clock)

/-- The write vectors of a pair put at an address at a time. -/
def putIovec (store : NvmKvStore) (poolId : UInt32) (pair : NvmKvIovec) (layout : WriteLayout)
    (buf : Region) (clock lba : Nat) : List NvmIovec :=
  pairIovec store.capabilities layout (putHeader store poolId pair layout buf clock) pair.value
    pair.valueLen lba

/-- The end of the search for a pair in a state. -/
def putPlace (store : NvmKvStore) (state : StoreState ι) (poolId : UInt32) (pair : NvmKvIovec) :
    Place :=
  place store state.clock state.media poolId pair.key pair.replace
    (store.probes poolId pair.key)

/-- The answer of the cache to a lookup of a key; a store without a cache has
none. -/
def cacheAnswer (store : NvmKvStore) (state : StoreState ι) (poolId : UInt32)
    (key : List UInt8) : Bool × NvmKvCacheContext :=
  if 0 < store.cacheSize then
    kvCacheGet (cacheAddrBits store.cacheSize) state.cache key poolId
      (store.expiryMode ≠ .disableExpiry) state.clock
  else
    (false, .zero)

/-- The cache knows the key and forbids to put it. -/
def cacheRefuses (store : NvmKvStore) (state : StoreState ι) (poolId : UInt32)
    (pair : NvmKvIovec) : Bool :=
  let (found, context) := cacheAnswer store state poolId pair.key
  found && !pair.replace && !context.expired

/-- The address a put is to be written to and the length of a longer value that it
replaces, from the cache if that knows the key. -/
def putTarget (store : NvmKvStore) (state : StoreState ι) (poolId : UInt32) (pair : NvmKvIovec) :
    Option (Nat × Nat) :=
  let (found, context) := cacheAnswer store state poolId pair.key
  if found then
    some (context.contextEntry.lba,
      if pair.valueLen < context.contextEntry.valueLen then context.contextEntry.valueLen else 0)
  else
    (putPlace store state poolId pair).target store state.media pair.valueLen

/-- The state after a batch of a put at an address. -/
def StoreState.afterPut (store : NvmKvStore) (thread : ι) (poolId : UInt32) (pair : NvmKvIovec)
    (state : StoreState ι) (batch : List NvmIovec) (lba : Nat) : StoreState ι :=
  { state with
    media := state.media.applyBatch store.sectorSize batch
    log := state.log ++ [(thread, batch)]
    cache :=
      if 0 < store.cacheSize then
        kvCachePut (cacheAddrBits store.cacheSize) state.cache pair.key poolId pair.valueLen
          (absoluteExpiry (putExpiry store pair) state.clock) pair.genCount lba state.clock
          (cacheAnswer store state poolId pair.key).2
      else state.cache }

/-- The ends of a put that is alone, with the returned code and the state left
behind. -/
inductive PutEffect (store : NvmKvStore) (thread : ι) (poolId : UInt32) (pair : NvmKvIovec)
    (allocation : Allocation) (state : StoreState ι) :
    Except NvmErrorCode Nat → StoreState ι → Prop where
  | invalid (rejected : putAccepted store state poolId pair = false) :
      PutEffect store thread poolId pair allocation state (.error .invalidInput) state
  | remembered (accepted : putAccepted store state poolId pair = true)
      (refuses : cacheRefuses store state poolId pair = true) :
      PutEffect store thread poolId pair allocation state (.error .objectExists) state
  | leaked (code : NvmErrorCode) (accepted : putAccepted store state poolId pair = true)
      (found : (cacheAnswer store state poolId pair.key).1 = true)
      (failed : kvAllocForWrite store.capabilities pair.key.length pair.value pair.valueLen
        allocation.buf = .error code) :
      PutEffect store thread poolId pair allocation state (.error code)
        ((state.hold thread (cacheAnswer store state poolId pair.key).2.contextEntry.lba).release 0)
  | unallocated (code : NvmErrorCode) (accepted : putAccepted store state poolId pair = true)
      (missed : (cacheAnswer store state poolId pair.key).1 = false)
      (failed : kvAllocForWrite store.capabilities pair.key.length pair.value pair.valueLen
        allocation.buf = .error code) :
      PutEffect store thread poolId pair allocation state (.error code) state
  | refused (lba : Nat) (accepted : putAccepted store state poolId pair = true)
      (missed : (cacheAnswer store state poolId pair.key).1 = false)
      (placed : putPlace store state poolId pair = .refused lba) :
      PutEffect store thread poolId pair allocation state (.error .objectExists) state
  | full (accepted : putAccepted store state poolId pair = true)
      (missed : (cacheAnswer store state poolId pair.key).1 = false)
      (placed : putPlace store state poolId pair = .full) :
      PutEffect store thread poolId pair allocation state (.error .internalFailure) state
  | outOfMemory (lba trimLen : Nat) (accepted : putAccepted store state poolId pair = true)
      (target : putTarget store state poolId pair = some (lba, trimLen))
      (none : allocation.iovec = none) :
      PutEffect store thread poolId pair allocation state (.error .outOfMemory) state
  | untrimmable (code : NvmErrorCode) (lba trimLen : Nat)
      (accepted : putAccepted store state poolId pair = true)
      (target : putTarget store state poolId pair = some (lba, trimLen))
      (failed : kvProcessForTrim store.capabilities pair.valueLen trimLen lba = .error code) :
      PutEffect store thread poolId pair allocation state (.error code) state
  | written (layout : WriteLayout) (unused buf : Region) (memory : Nat → NvmIovec)
      (trims : List NvmIovec) (lba trimLen : Nat)
      (accepted : putAccepted store state poolId pair = true)
      (allows : cacheRefuses store state poolId pair = false)
      (allocated : kvAllocForWrite store.capabilities pair.key.length pair.value pair.valueLen
        allocation.buf = .ok (layout, unused))
      (target : putTarget store state poolId pair = some (lba, trimLen))
      (array : allocation.iovec = some memory)
      (trimmed : kvProcessForTrim store.capabilities pair.valueLen trimLen lba = .ok trims) :
      PutEffect store thread poolId pair allocation state (.ok pair.valueLen)
        (state.afterPut store thread poolId pair (handedIovec memory
          (trims ++ putIovec store poolId pair layout buf state.clock lba) layout.iovCount) lba)

/-- When everything a put needs is there, it is written. -/
theorem PutEffect.of_written {store : NvmKvStore} {thread : ι} {poolId : UInt32}
    {pair : NvmKvIovec} {allocation : Allocation} {state after : StoreState ι}
    {result : Except NvmErrorCode Nat} {layout : WriteLayout} {unused : Region}
    {memory : Nat → NvmIovec} {trims : List NvmIovec} {lba trimLen : Nat}
    (effect : PutEffect store thread poolId pair allocation state result after)
    (accepted : putAccepted store state poolId pair = true)
    (allows : cacheRefuses store state poolId pair = false)
    (allocated : kvAllocForWrite store.capabilities pair.key.length pair.value pair.valueLen
      allocation.buf = .ok (layout, unused))
    (target : putTarget store state poolId pair = some (lba, trimLen))
    (array : allocation.iovec = some memory)
    (trimmed : kvProcessForTrim store.capabilities pair.valueLen trimLen lba = .ok trims) :
    result = .ok pair.valueLen ∧ ∃ buf, after = state.afterPut store thread poolId pair
      (handedIovec memory (trims ++ putIovec store poolId pair layout buf state.clock lba)
        layout.iovCount) lba := by
  cases effect with
  | invalid rejected => exact absurd accepted (by simp [rejected])
  | remembered _ refuses => exact absurd refuses (by simp [allows])
  | leaked code _ _ failed => exact absurd (allocated.symm.trans failed) (by simp)
  | unallocated code _ _ failed => exact absurd (allocated.symm.trans failed) (by simp)
  | refused other _ missed placed =>
    simp [putTarget, missed, placed, Place.target] at target
  | full _ missed placed => simp [putTarget, missed, placed, Place.target] at target
  | outOfMemory other otherLen _ _ none => exact absurd (array.symm.trans none) (by simp)
  | untrimmable code other otherLen _ otherTarget failed =>
    rw [target, Option.some.injEq, Prod.mk.injEq] at otherTarget
    obtain ⟨rfl, rfl⟩ := otherTarget
    exact absurd (trimmed.symm.trans failed) (by simp)
  | written otherLayout otherUnused buf otherMemory otherTrims other otherLen _ _ otherAllocated
      otherTarget otherArray otherTrimmed =>
    rw [allocated, Except.ok.injEq, Prod.mk.injEq] at otherAllocated
    rw [target, Option.some.injEq, Prod.mk.injEq] at otherTarget
    rw [array, Option.some.injEq] at otherArray
    obtain ⟨rfl, rfl⟩ := otherAllocated
    obtain ⟨rfl, rfl⟩ := otherTarget
    subst otherArray
    rw [trimmed, Except.ok.injEq] at otherTrimmed
    subst otherTrimmed
    exact ⟨rfl, buf, rfl⟩

section Runs

variable (store : NvmKvStore) (thread : ι) (state : StoreState ι)

/-- Completing the header asks for the time only for a pair that expires. -/
@[simp] theorem run_kvProcessForWrite (poolId : UInt32) (pair : NvmKvIovec)
    (layout : WriteLayout) (buf : Region) (lba : Nat) :
    (kvProcessForWrite store.capabilities poolId pair layout buf (putExpiry store pair) lba).run
      (answer store thread) state =
    some ((putIovec store poolId pair layout buf state.clock lba,
      absoluteExpiry (putExpiry store pair) state.clock), state) := by
  unfold kvProcessForWrite putIovec putHeader
  by_cases never : putExpiry store pair = 0
  · have zero : ∀ time, absoluteExpiry 0 time = 0 := fun _ => if_pos rfl
    simp only [never, if_true, Program.run_bind, Program.run_pure, Option.bind_some, zero]
  · simp only [never, if_false, Program.run_bind, run_currentTime, Option.bind_some,
      Program.run_pure]

/-- Preparing and writing the vectors of a put whose caller holds the address. -/
theorem run_kvPutWrite (poolId : UInt32) (pair : NvmKvIovec) (layout : WriteLayout)
    (placed : GenLba) (memory : Option (Nat → NvmIovec)) (context : NvmKvCacheContext) :
    (kvPutWrite store poolId pair layout placed memory context).run (answer store thread) state =
      let ends (retCode : Except NvmErrorCode Unit) : PutBody :=
        ⟨retCode, placed.keyHashVal, placed.insertLba⟩
      match memory, kvProcessForTrim store.capabilities pair.valueLen placed.trimLen
        placed.keyHashVal with
      | none, _ => some (ends (.error .outOfMemory), state)
      | some _, .error code => some (ends (.error code), state)
      | some memory, .ok trims =>
          let iovec := handedIovec memory (trims ++ putIovec store poolId pair layout placed.buf
            state.clock placed.keyHashVal) layout.iovCount
          some (ends (.ok ()),
            { state with
              media := state.media.applyBatch store.sectorSize iovec
              log := state.log ++ [(thread, iovec)]
              cache :=
                if 0 < store.cacheSize then
                  kvCachePut (cacheAddrBits store.cacheSize) state.cache pair.key poolId
                    pair.valueLen (absoluteExpiry (putExpiry store pair) state.clock) pair.genCount
                    placed.keyHashVal state.clock context
                else state.cache }) := by
  unfold kvPutWrite
  cases memory with
  | none => rfl
  | some memory =>
    cases trimmed : kvProcessForTrim store.capabilities pair.valueLen placed.trimLen
        placed.keyHashVal with
    | error code => simp only [Program.run_pure]
    | ok trims =>
      simp only [Program.run_bind, run_kvProcessForWrite, run_nvmWritev, Option.bind_some]
      by_cases cached : 0 < store.cacheSize
      · simp only [cached, if_true]
        rfl
      · simp only [cached, if_false, Program.run_pure]

/-- The end of a put releases the address that its body took. -/
theorem run_kvPut_body {poolId : UInt32} {pair : NvmKvIovec} {allocation : Allocation}
    {body : PutBody} {after : StoreState ι}
    (ran : (kvPutBody store poolId pair allocation).run (answer store thread) state =
      some (body, after)) :
    (kvPut store poolId pair allocation).run (answer store thread) state =
      some (body.retCode.map fun _ => pair.valueLen,
        if body.insertLba then after.release body.keyHashVal else after) := by
  simp only [kvPut, Program.run_bind, ran, Option.bind_some]
  cases body.insertLba <;>
    simp only [Bool.false_eq_true, if_true, if_false, Program.run_bind,
      run_deleteLbaFromSafeList, Option.bind_some, Program.run_pure]

/-- A put whose address is known. The address is held during the write and the
state gets its old safe list back. -/
theorem run_kvPut_placed {poolId : UInt32} {pair : NvmKvIovec} {allocation : Allocation}
    {layout : WriteLayout} {unused buf : Region} {lba trimLen : Nat}
    (free : state.safeLbaList lba = none) (accepted : putAccepted store state poolId pair = true)
    (allows : cacheRefuses store state poolId pair = false)
    (allocated : kvAllocForWrite store.capabilities pair.key.length pair.value pair.valueLen
      allocation.buf = .ok (layout, unused))
    (target : putTarget store state poolId pair = some (lba, trimLen))
    (ran : (kvPutBody store poolId pair allocation).run (answer store thread) state =
      (kvPutWrite store poolId pair layout ⟨.ok (), trimLen, lba, true, buf⟩ allocation.iovec
        (cacheAnswer store state poolId pair.key).2).run (answer store thread)
        (state.hold thread lba)) :
    ∃ result after, (kvPut store poolId pair allocation).run (answer store thread) state =
        some (result, after) ∧
      PutEffect store thread poolId pair allocation state result after := by
  have released : (state.hold thread lba).release lba = state := state.release_hold thread lba free
  rw [run_kvPutWrite store thread (state.hold thread lba)] at ran
  cases array : allocation.iovec with
  | none =>
    simp only [array] at ran
    refine ⟨_, _, run_kvPut_body store thread state ran, ?_⟩
    simp only [if_true, released]
    exact .outOfMemory lba trimLen accepted target array
  | some memory =>
    cases trimmed : kvProcessForTrim store.capabilities pair.valueLen trimLen lba with
    | error code =>
      simp only [array, trimmed] at ran
      refine ⟨_, _, run_kvPut_body store thread state ran, ?_⟩
      simp only [if_true, released]
      exact .untrimmable code lba trimLen accepted target trimmed
    | ok trims =>
      simp only [array, trimmed] at ran
      refine ⟨_, _, run_kvPut_body store thread state ran, ?_⟩
      have list := congrArg StoreState.safeLbaList released
      simp only [if_true, StoreState.release, StoreState.hold] at list ⊢
      rw [list]
      exact .written layout unused buf memory trims lba trimLen accepted allows allocated target
        array trimmed

/-- A put of a key that the cache does not know. -/
theorem run_kvPut_searched {poolId : UInt32} {pair : NvmKvIovec} {allocation : Allocation}
    (free : ∀ lba, state.safeLbaList lba = none)
    (accepted : putAccepted store state poolId pair = true)
    (missed : (cacheAnswer store state poolId pair.key).1 = false)
    (body : (kvPutBody store poolId pair allocation).run (answer store thread) state =
      (kvPutPlace store poolId pair allocation (cacheAnswer store state poolId pair.key).2
        false).run (answer store thread) state) :
    ∃ result after, (kvPut store poolId pair allocation).run (answer store thread) state =
        some (result, after) ∧
      PutEffect store thread poolId pair allocation state result after := by
  have short : pair.key.length ≤ nvmKvMaxKeySize := by
    simp only [putAccepted, Bool.and_eq_true] at accepted
    exact (of_decide_eq_true accepted.1.2).2
  have allows : cacheRefuses store state poolId pair = false := by
    simp only [cacheRefuses, missed, Bool.false_and]
  have target : putTarget store state poolId pair =
      (putPlace store state poolId pair).target store state.media pair.valueLen := by
    simp only [putTarget, missed, Bool.false_eq_true, if_false]
  cases allocated : kvAllocForWrite store.capabilities pair.key.length pair.value pair.valueLen
      allocation.buf with
  | error code =>
    have ran : (kvPutBody store poolId pair allocation).run (answer store thread) state =
        some (⟨.error code, 0, false⟩, state) := by
      rw [body, kvPutPlace, allocated]
      rfl
    exact ⟨_, _, run_kvPut_body store thread state ran,
      .unallocated code accepted missed allocated⟩
  | ok result =>
    obtain ⟨layout, unused⟩ := result
    obtain ⟨buf, searched⟩ := @run_kvGenLbaProbes _ store thread state poolId pair
      (store.probes poolId pair.key) unused short (fun lba _ => free lba)
    have search : (kvGenLbaProbes store poolId pair (store.probes poolId pair.key) false
        unused).run (answer store thread) state =
        some ((putPlace store state poolId pair).result store state.media poolId pair buf,
          (putPlace store state poolId pair).after thread state) := searched
    simp only [kvPutPlace, allocated, Bool.false_eq_true, if_false, kvGenLba, Program.run_bind,
      search, Option.bind_some] at body
    cases ends : putPlace store state poolId pair with
    | fresh lba =>
      rw [ends] at body target
      exact run_kvPut_placed store thread state (free lba) accepted allows allocated target body
    | revived lba =>
      rw [ends] at body target
      exact run_kvPut_placed store thread state (free lba) accepted allows allocated target body
    | replaced lba =>
      rw [ends] at body target
      exact run_kvPut_placed store thread state (free lba) accepted allows allocated target body
    | refused lba =>
      rw [ends] at body
      exact ⟨_, _, run_kvPut_body store thread state body, .refused lba accepted missed ends⟩
    | full =>
      rw [ends] at body
      exact ⟨_, _, run_kvPut_body store thread state body, .full accepted missed ends⟩

/-- A put of a key that the cache knows. -/
theorem run_kvPut_remembered {poolId : UInt32} {pair : NvmKvIovec} {allocation : Allocation}
    {context : NvmKvCacheContext} (free : ∀ lba, state.safeLbaList lba = none)
    (accepted : putAccepted store state poolId pair = true)
    (found : cacheAnswer store state poolId pair.key = (true, context))
    (allows : cacheRefuses store state poolId pair = false)
    (body : (kvPutBody store poolId pair allocation).run (answer store thread) state =
      (kvPutPlace store poolId pair allocation context true).run (answer store thread)
        (state.hold thread context.contextEntry.lba)) :
    ∃ result after, (kvPut store poolId pair allocation).run (answer store thread) state =
        some (result, after) ∧
      PutEffect store thread poolId pair allocation state result after := by
  have hit : (cacheAnswer store state poolId pair.key).1 = true := by rw [found]
  have known : (cacheAnswer store state poolId pair.key).2 = context := by rw [found]
  have target : putTarget store state poolId pair = some (context.contextEntry.lba,
      if pair.valueLen < context.contextEntry.valueLen then context.contextEntry.valueLen
      else 0) := by
    simp only [putTarget, found, if_true]
  cases allocated : kvAllocForWrite store.capabilities pair.key.length pair.value pair.valueLen
      allocation.buf with
  | error code =>
    have ran : (kvPutBody store poolId pair allocation).run (answer store thread) state =
        some (⟨.error code, 0, true⟩, state.hold thread context.contextEntry.lba) := by
      rw [body, kvPutPlace, allocated]
      rfl
    refine ⟨_, _, run_kvPut_body store thread state ran, ?_⟩
    simp only [if_true, ← known]
    exact .leaked code accepted hit allocated
  | ok result =>
    obtain ⟨layout, unused⟩ := result
    simp only [kvPutPlace, allocated, if_true, Program.run_bind, Program.run_pure,
      Option.bind_some] at body
    rw [← known] at body target
    exact run_kvPut_placed store thread state (free _) accepted allows allocated target body

/-- A put that is alone comes to one of its ends. -/
theorem run_kvPut (free : ∀ lba, state.safeLbaList lba = none)
    (poolId : UInt32) (pair : NvmKvIovec) (allocation : Allocation) :
    ∃ result after, (kvPut store poolId pair allocation).run (answer store thread) state =
        some (result, after) ∧
      PutEffect store thread poolId pair allocation state result after := by
  cases accepted : putAccepted store state poolId pair with
  | false =>
    have ran : (kvPutBody store poolId pair allocation).run (answer store thread) state =
        some (⟨.error .invalidInput, 0, false⟩, state) := by
      simp only [putAccepted, Bool.and_eq_false_iff] at accepted
      simp only [kvPutBody, Program.run_bind, run_kvValidatePoolId, Option.bind_some]
      rw [if_pos (by simpa [or_assoc] using accepted)]
      rfl
    exact ⟨_, _, run_kvPut_body store thread state ran, .invalid accepted⟩
  | true =>
    have valid := accepted
    simp only [putAccepted, Bool.and_eq_true] at valid
    obtain ⟨⟨pool, key⟩, value⟩ := valid
    by_cases cached : 0 < store.cacheSize
    · have asked : (askCacheGet pair.key poolId).run (answer store thread) state =
          some (cacheAnswer store state poolId pair.key, state) := by
        simp only [cacheAnswer, if_pos cached]
        rfl
      obtain ⟨⟨found, context⟩, answered⟩ :
          ∃ reply, cacheAnswer store state poolId pair.key = reply := ⟨_, rfl⟩
      have body := kvPutBody.eq_1 store poolId pair allocation
      have ran := congrArg (fun program => program.run (answer store thread) state) body
      simp only [Program.run_bind, run_kvValidatePoolId, Option.bind_some, pool, key, value,
        Bool.not_true, Bool.or_self, Bool.false_eq_true, if_false, cached, if_true, asked,
        answered] at ran
      cases found with
      | false =>
        simp only [Bool.false_eq_true, if_false] at ran
        apply run_kvPut_searched store thread state free accepted (by rw [answered])
        rw [answered]
        exact ran
      | true =>
        have entryState : context.contextState = .cacheEntryFound := by
          simp only [cacheAnswer, if_pos cached] at answered
          exact (kvCacheGet_found answered).1
        cases refuses : cacheRefuses store state poolId pair with
        | true =>
          simp only [cacheRefuses, answered, Bool.true_and] at refuses
          simp only [if_true, refuses] at ran
          refine ⟨_, _, run_kvPut_body store thread state ran, .remembered accepted ?_⟩
          simp only [cacheRefuses, answered, Bool.true_and, refuses]
        | false =>
          have allowed := refuses
          simp only [cacheRefuses, answered, Bool.true_and] at allowed
          simp only [if_true, allowed, Bool.false_eq_true, if_false, entryState, Program.run_bind,
            run_insertEntry_free store thread state (free _), Option.bind_some] at ran
          exact run_kvPut_remembered store thread state free accepted answered refuses ran
    · have unasked : cacheAnswer store state poolId pair.key = (false, .zero) := if_neg cached
      apply run_kvPut_searched store thread state free accepted (by rw [unasked])
      rw [unasked]
      simp only [kvPutBody, Program.run_bind, run_kvValidatePoolId, Option.bind_some, pool, key,
        value, Bool.not_true, Bool.or_self, Bool.false_eq_true, if_false, cached]

end Runs

end Nvmkv
