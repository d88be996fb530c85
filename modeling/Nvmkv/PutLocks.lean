import Nvmkv.BatchOwnership
import Nvmkv.DeviceSearch

/-!
# The address that a put takes

A put takes one address at most, from the cache or by its search, and releases at its
end the address in `key_hash_val` when its flag is set. On the way from the taking to the
release nothing touches the safe list, and so the put restores it when that variable has
the address taken (`DeviceRun.Took`).

It has not when a pair that the cache knows cannot be allocated for: the remembered
address is taken before the memory, and comes into the variable only behind it. The put
then releases the address 0, which the variable starts with. For every other put the safe
list is restored, whatever the device does.
-/

namespace Nvmkv

variable {ι : Type} {store : NvmKvStore} {thread : ι} {outcome : Nat → Bool}

/-- A call that does not work on the safe list leaves it as it is. -/
theorem answer_keeps_safeLbaList {op : StoreOp} (besides : ¬op.OnSafeList)
    {state after : StoreState ι} {answered : StoreRes op}
    (reply : answer store thread op state = some (answered, after)) :
    after.safeLbaList = state.safeLbaList := by
  cases op with
  | checkEntry lba => exact absurd trivial besides
  | awaitEntry lba => exact absurd trivial besides
  | deleteEntry lba => exact absurd trivial besides
  | never => cases reply
  | _ =>
    obtain ⟨_, rfl⟩ := Prod.mk.inj (Option.some.inj reply)
    rfl

/-- A program without calls on the safe list leaves it as it is, whether the operations of
the device work or fail. Induction follows the calls. -/
theorem run_keeps_safeLbaList {α : Type} {program : StoreM α}
    (besides : program.Calls fun op => ¬op.OnSafeList) {run after : DeviceRun ι} {result : α}
    (ran : program.run (answerWith store thread outcome) run = some (result, after)) :
    after.store.safeLbaList = run.store.safeLbaList := by
  induction program generalizing run with
  | done result =>
    cases ran
    rfl
  | call op next inductionHypothesis =>
    rw [Program.run_call] at ran
    obtain ⟨⟨answered, between⟩, reply, further⟩ := Option.bind_eq_some_iff.mp ran
    rw [inductionHypothesis answered (besides.2 answered) further]
    rcases answerWith_cases reply with ⟨_, reached, given, rfl⟩ | ⟨_, _, reached, given, rfl⟩ |
      ⟨_, _, rfl⟩
    · exact answer_keeps_safeLbaList besides.1 given
    · exact answer_keeps_safeLbaList besides.1 given
    · rfl

/-- What reads does not work on the safe list. -/
theorem Program.Calls.besides {α : Type} {program : StoreM α}
    (reads : program.Calls StoreOp.Reads) : program.Calls fun op => ¬op.OnSafeList := by
  refine reads.mono fun op among listed => ?_
  cases op with
  | checkEntry lba => exact among
  | awaitEntry lba => exact among
  | deleteEntry lba => exact among
  | _ => exact listed

/-- A program took the address that it reports as taken and no other; when it reports
none, the safe list is as before. -/
def DeviceRun.Took (thread : ι) (before after : DeviceRun ι) (insertLba : Bool) (lba : Nat) :
    Prop :=
  if insertLba then
    before.store.safeLbaList lba = none ∧
      after.store.safeLbaList = Function.update before.store.safeLbaList lba (some thread)
  else
    after.store.safeLbaList = before.store.safeLbaList

namespace DeviceRun.Took

variable {before between after : DeviceRun ι} {insertLba : Bool} {lba : Nat}

/-- What leaves the safe list alone may follow. -/
theorem next (took : Took thread before between insertLba lba)
    (kept : after.store.safeLbaList = between.store.safeLbaList) :
    Took thread before after insertLba lba := by
  unfold Took at took ⊢
  rwa [kept]

/-- The release of the address restores the safe list. -/
theorem released (took : Took thread before after true lba) :
    (after.release lba).store.safeLbaList = before.store.safeLbaList := by
  obtain ⟨free, held⟩ := took
  change Function.update after.store.safeLbaList lba none = _
  rw [held, Function.update_idem, ← free, Function.update_eq_self]

/-- The release of another address leaves the address on the list. -/
theorem not_released (took : Took thread before after true lba) {other : Nat}
    (different : lba ≠ other) :
    (after.release other).store.safeLbaList ≠ before.store.safeLbaList := by
  obtain ⟨free, held⟩ := took
  intro restored
  have still : Function.update after.store.safeLbaList other none lba = some thread := by
    rw [Function.update_of_ne different, held, Function.update_self]
  rw [show Function.update after.store.safeLbaList other none = before.store.safeLbaList
    from restored, free] at still
  cases still

end DeviceRun.Took

section Search

variable {clock operations : Nat} {media : Media} {poolId : UInt32} {pair : NvmKvIovec}

/-- A search with success has inserted the address that it reports, and one with an error
none. -/
def SearchEnd.Inserts (ends : SearchEnd) : Prop :=
  ends.retCode = .ok () ∧ ends.insertLba = true ∧ ends.taken = some ends.keyHashVal ∨
    (∃ code, ends.retCode = .error code) ∧ ends.insertLba = false ∧ ends.taken = none

/-- A search that starts without an address inserts the one that it reports. Induction
follows the addresses. -/
theorem searchWith_inserts (store : NvmKvStore) (outcome : Nat → Bool) (clock : Nat)
    (media : Media) (poolId : UInt32) (pair : NvmKvIovec) (operations : Nat) (lbas : List Nat) :
    (searchWith store outcome clock media poolId pair false operations lbas).Inserts := by
  induction lbas generalizing operations with
  | nil => exact Or.inr ⟨⟨_, rfl⟩, rfl, rfl⟩
  | cons lba rest inductionHypothesis =>
    simp only [searchWith, Bool.false_eq_true, if_false]
    split_ifs with fails free failing held expired replace
    · exact Or.inr ⟨⟨_, rfl⟩, rfl, rfl⟩
    · exact Or.inl ⟨rfl, rfl, rfl⟩
    · exact Or.inr ⟨⟨_, rfl⟩, rfl, rfl⟩
    · exact Or.inl ⟨rfl, rfl, rfl⟩
    · exact Or.inl ⟨rfl, rfl, rfl⟩
    · exact Or.inr ⟨⟨_, rfl⟩, rfl, rfl⟩
    · have further := inductionHypothesis (operations + 2)
      exact further

/-- An inserted address was free and is held. -/
theorem DeviceRun.took_of_take {run after : DeviceRun ι} {lba : Nat}
    (taken : run.take thread (some lba) = some after) : run.Took thread after true lba := by
  rw [DeviceRun.take] at taken
  split_ifs at taken with free
  cases taken
  exact ⟨free, rfl⟩

/-- What is left of such a search: the address that it reports is taken, or nothing is. -/
theorem SearchEnd.Inserts.took {ends : SearchEnd} (inserts : ends.Inserts)
    {run between after : DeviceRun ι}
    (taken : between.take thread ends.taken = some after)
    (same : between.store.safeLbaList = run.store.safeLbaList) :
    ends.retCode = .ok () ∧ ends.insertLba = true ∧ run.Took thread after true ends.keyHashVal ∨
      (∃ code, ends.retCode = .error code) ∧ ends.insertLba = false ∧
        after.store.safeLbaList = run.store.safeLbaList := by
  rcases inserts with ⟨success, flag, one⟩ | ⟨error, flag, none⟩
  · rw [one] at taken
    obtain ⟨free, held⟩ := DeviceRun.took_of_take taken
    rw [same] at free held
    exact Or.inl ⟨success, flag, free, held⟩
  · rw [none] at taken
    cases taken
    exact Or.inr ⟨error, flag, same⟩

/-- The search of a caller who holds nothing takes the address that it reports as taken. -/
theorem took_kvGenLbaProbes (short : pair.key.length ≤ nvmKvMaxKeySize) {lbas : List Nat}
    {buf : Region} {run after : DeviceRun ι} {placed : GenLba}
    (ran : (kvGenLbaProbes store poolId pair lbas false buf).run (answerWith store thread outcome)
      run = some (placed, after)) :
    placed.retCode = .ok () ∧ placed.insertLba = true ∧
        run.Took thread after true placed.keyHashVal ∨
      (∃ code, placed.retCode = .error code) ∧ placed.insertLba = false ∧
        after.store.safeLbaList = run.store.safeLbaList := by
  obtain ⟨read, ends⟩ := run_kvGenLbaProbes_with store thread outcome short lbas false buf run
  rw [ends] at ran
  dsimp only at ran
  rw [searchWith_dropped, DeviceRun.drop] at ran
  obtain ⟨reached, taken, same⟩ := Option.map_eq_some_iff.mp ran
  obtain ⟨rfl, rfl⟩ := Prod.mk.inj same
  exact (searchWith_inserts store outcome _ _ poolId pair _ lbas).took taken rfl

/-- The search of a put takes the address that it reports as taken. -/
theorem took_kvGenLba (short : pair.key.length ≤ nvmKvMaxKeySize) {buf : Region}
    {run after : DeviceRun ι} {placed : GenLba}
    (ran : (kvGenLba store poolId pair buf false none).run (answerWith store thread outcome) run =
      some (placed, after)) :
    run.Took thread after placed.insertLba placed.keyHashVal := by
  rcases took_kvGenLbaProbes short ran with ⟨_, flag, took⟩ | ⟨_, flag, list⟩
  · rwa [flag]
  · rw [flag]
    exact list

end Search

section Put

variable {poolId : UInt32} {pair : NvmKvIovec} {allocation : Allocation}

/-- Writing a pair does not touch the safe list, and returns the address and the flag that
it was given. -/
theorem yields_kvPutWrite {layout : WriteLayout} {placed : GenLba}
    {memory : Option (Nat → NvmIovec)} {context : NvmKvCacheContext} :
    (kvPutWrite store poolId pair layout placed memory context).Yields (fun op => ¬op.OnSafeList)
      fun body : PutBody =>
        body.insertLba = placed.insertLba ∧ body.keyHashVal = placed.keyHashVal := by
  unfold kvPutWrite
  cases memory with
  | none => exact ⟨rfl, rfl⟩
  | some memory =>
    dsimp only
    cases kvProcessForTrim store.capabilities pair.valueLen placed.trimLen placed.keyHashVal with
    | error code => exact ⟨rfl, rfl⟩
    | ok trims =>
      refine Program.Yields.after (reads_kvProcessForWrite _ _ _ _ _ _).besides fun written => ?_
      refine ⟨id, fun works => ?_⟩
      cases works with
      | false => exact ⟨rfl, rfl⟩
      | true =>
        dsimp only
        split_ifs
        · exact ⟨id, fun _ => ⟨rfl, rfl⟩⟩
        · exact ⟨rfl, rfl⟩

/-- What the writing of a pair leaves of an address taken before. -/
theorem took_kvPutWrite {layout : WriteLayout} {placed : GenLba}
    {memory : Option (Nat → NvmIovec)} {context : NvmKvCacheContext}
    {before run after : DeviceRun ι} {body : PutBody}
    (took : before.Took thread run placed.insertLba placed.keyHashVal)
    (ran : (kvPutWrite store poolId pair layout placed memory context).run
      (answerWith store thread outcome) run = some (body, after)) :
    before.Took thread after body.insertLba body.keyHashVal := by
  have yields : (kvPutWrite store poolId pair layout placed memory context).Yields _ _ :=
    yields_kvPutWrite
  obtain ⟨flag, address⟩ := yields.returns.of_run ran
  rw [flag, address]
  exact took.next (run_keeps_safeLbaList yields.calls ran)

/-- A put that searches takes the address that its body reports. -/
theorem took_kvPutPlace_searched (short : pair.key.length ≤ nvmKvMaxKeySize)
    {context : NvmKvCacheContext} {run after : DeviceRun ι} {body : PutBody}
    (ran : (kvPutPlace store poolId pair allocation context false).run
      (answerWith store thread outcome) run = some (body, after)) :
    run.Took thread after body.insertLba body.keyHashVal := by
  unfold kvPutPlace at ran
  cases allocated : kvAllocForWrite store.capabilities pair.key.length pair.value pair.valueLen
      allocation.buf with
  | error code =>
    rw [allocated] at ran
    cases ran
    rfl
  | ok given =>
    obtain ⟨layout, buf⟩ := given
    simp only [allocated, Bool.false_eq_true, if_false, Program.run_bind] at ran
    obtain ⟨⟨placed, between⟩, searched, further⟩ := Option.bind_eq_some_iff.mp ran
    have took := took_kvGenLba short searched
    dsimp only at further
    cases ends : placed.retCode with
    | error code =>
      rw [ends] at further
      cases further
      exact took
    | ok done =>
      rw [ends] at further
      exact took_kvPutWrite took further

/-- A put of a remembered pair reports the address when it gets the memory for it. -/
theorem took_kvPutPlace_remembered {context : NvmKvCacheContext} {before run after : DeviceRun ι}
    {body : PutBody} (took : before.Took thread run true context.contextEntry.lba)
    (ran : (kvPutPlace store poolId pair allocation context true).run
      (answerWith store thread outcome) run = some (body, after)) :
    match kvAllocForWrite store.capabilities pair.key.length pair.value pair.valueLen
      allocation.buf with
    | .error code => body = ⟨.error code, 0, true⟩ ∧ after = run
    | .ok _ => before.Took thread after body.insertLba body.keyHashVal := by
  unfold kvPutPlace at ran
  cases allocated : kvAllocForWrite store.capabilities pair.key.length pair.value pair.valueLen
      allocation.buf with
  | error code =>
    rw [allocated] at ran
    cases ran
    exact ⟨rfl, rfl⟩
  | ok given =>
    obtain ⟨layout, buf⟩ := given
    simp only [allocated, if_true, Program.run_bind, Program.run_pure, Option.bind_some] at ran
    exact took_kvPutWrite took ran

/-- A put that leaves the address of a remembered pair behind: the pair cannot be allocated
for, and the address is not the one that is released instead. -/
structure LeavesRemembered (store : NvmKvStore) (state : StoreState ι) (poolId : UInt32)
    (pair : NvmKvIovec) (allocation : Allocation) : Prop where
  accepted : putAccepted store state poolId pair = true
  found : (cacheAnswer store state poolId pair.key).1 = true
  allows : cacheRefuses store state poolId pair = false
  unallocated : ∃ code, kvAllocForWrite store.capabilities pair.key.length pair.value
    pair.valueLen allocation.buf = .error code
  elsewhere : (cacheAnswer store state poolId pair.key).2.contextEntry.lba ≠ 0

/-- The question to the cache, which a store without a cache is not asked. -/
theorem run_askCacheGet_with (cached : 0 < store.cacheSize) (key : List UInt8) (poolId : UInt32)
    (run : DeviceRun ι) :
    (askCacheGet key poolId).run (answerWith store thread outcome) run =
      some (cacheAnswer store run.store poolId key, run) := by
  rw [cacheAnswer, if_pos cached]
  rfl

/-- A put that is not accepted ends at once. -/
theorem run_kvPutBody_rejected {run : DeviceRun ι}
    (rejected : putAccepted store run.store poolId pair = false) :
    (kvPutBody store poolId pair allocation).run (answerWith store thread outcome) run =
      some (⟨.error .invalidInput, 0, false⟩, run) := by
  simp only [putAccepted, Bool.and_eq_false_iff] at rejected
  simp only [kvPutBody, Program.run_bind, run_kvValidatePoolId_with, Option.bind_some]
  rw [if_pos (by simpa [or_assoc] using rejected)]
  rfl

/-- An accepted put is refused by the cache, or takes the address that the cache remembers,
or searches. -/
theorem run_kvPutBody_accepted {run : DeviceRun ι}
    (accepted : putAccepted store run.store poolId pair = true) :
    (kvPutBody store poolId pair allocation).run (answerWith store thread outcome) run =
      let answered := cacheAnswer store run.store poolId pair.key
      if cacheRefuses store run.store poolId pair then
        some (⟨.error .objectExists, 0, false⟩, run)
      else if answered.1 then
        (run.take thread (some answered.2.contextEntry.lba)).bind fun held =>
          (kvPutPlace store poolId pair allocation answered.2 true).run
            (answerWith store thread outcome) held
      else
        (kvPutPlace store poolId pair allocation answered.2 false).run
          (answerWith store thread outcome) run := by
  simp only [putAccepted, Bool.and_eq_true] at accepted
  obtain ⟨⟨pool, key⟩, value⟩ := accepted
  simp only [kvPutBody, Program.run_bind, run_kvValidatePoolId_with, Option.bind_some, pool, key,
    value, Bool.not_true, Bool.or_self, Bool.false_eq_true, if_false]
  by_cases cached : 0 < store.cacheSize
  · simp only [cached, if_true, Program.run_bind, run_askCacheGet_with cached, Option.bind_some]
    obtain ⟨⟨found, context⟩, answered⟩ :
        ∃ reply, cacheAnswer store run.store poolId pair.key = reply := ⟨_, rfl⟩
    have refuses : cacheRefuses store run.store poolId pair =
        (found && !pair.replace && !context.expired) := by
      simp only [cacheRefuses, answered]
    simp only [answered, refuses]
    cases found with
    | false => simp only [Bool.false_eq_true, if_false, Bool.false_and]
    | true =>
      have entryState : context.contextState = .cacheEntryFound := by
        rw [cacheAnswer, if_pos cached] at answered
        exact (kvCacheGet_found answered).1
      simp only [if_true, Bool.true_and, entryState]
      split_ifs
      · rfl
      · rw [Program.run_bind, run_insertEntry_with]
        cases run.take thread (some context.contextEntry.lba) <;> rfl
  · have unasked : cacheAnswer store run.store poolId pair.key = (false, .zero) := if_neg cached
    have allows : cacheRefuses store run.store poolId pair = false := by
      simp only [cacheRefuses, unasked, Bool.false_and]
    simp only [cached, if_false, unasked, allows, Bool.false_eq_true]

/-- What the release at the end of a put does. -/
def PutBody.release (body : PutBody) (run : DeviceRun ι) : DeviceRun ι :=
  if body.insertLba then run.release body.keyHashVal else run

/-- The release restores the safe list when the address reported was taken. -/
theorem PutBody.release_took {body : PutBody} {run after : DeviceRun ι}
    (took : run.Took thread after body.insertLba body.keyHashVal) :
    (body.release after).store.safeLbaList = run.store.safeLbaList := by
  unfold PutBody.release
  cases flag : body.insertLba with
  | true =>
    rw [flag] at took
    exact took.released
  | false =>
    rw [flag] at took
    exact took

/-- The body of a put has taken the address that it reports, unless it leaves a remembered one.
Otherwise the address 0 is released instead of the one taken. -/
theorem release_kvPutBody {run after : DeviceRun ι} {body : PutBody}
    (ran : (kvPutBody store poolId pair allocation).run (answerWith store thread outcome) run =
      some (body, after)) :
    (body.release after).store.safeLbaList = run.store.safeLbaList ↔
      ¬LeavesRemembered store run.store poolId pair allocation := by
  cases accepted : putAccepted store run.store poolId pair with
  | false =>
    rw [run_kvPutBody_rejected accepted] at ran
    cases ran
    exact iff_of_true rfl fun leaves => Bool.false_ne_true (accepted.symm.trans leaves.accepted)
  | true =>
    have short : pair.key.length ≤ nvmKvMaxKeySize := by
      simp only [putAccepted, Bool.and_eq_true] at accepted
      exact (of_decide_eq_true accepted.1.2).2
    rw [run_kvPutBody_accepted accepted] at ran
    dsimp only at ran
    split_ifs at ran with refuses found
    · cases ran
      exact iff_of_true rfl fun leaves => Bool.false_ne_true (leaves.allows.symm.trans refuses)
    · obtain ⟨held, taken, further⟩ := Option.bind_eq_some_iff.mp ran
      have took : run.Took thread held true
          (cacheAnswer store run.store poolId pair.key).2.contextEntry.lba :=
        DeviceRun.took_of_take taken
      have ends := took_kvPutPlace_remembered took further
      cases allocated : kvAllocForWrite store.capabilities pair.key.length pair.value
          pair.valueLen allocation.buf with
      | error code =>
        rw [allocated] at ends
        obtain ⟨rfl, rfl⟩ := ends
        by_cases zero : (cacheAnswer store run.store poolId pair.key).2.contextEntry.lba = 0
        · refine iff_of_true ?_ fun leaves => leaves.elsewhere zero
          rw [zero] at took
          exact took.released
        · refine iff_of_false (took.not_released zero) (not_not.mpr ?_)
          exact ⟨accepted, found, Bool.not_eq_true _ ▸ refuses, ⟨code, allocated⟩, zero⟩
      | ok given =>
        rw [allocated] at ends
        refine iff_of_true (PutBody.release_took ends) fun leaves => ?_
        obtain ⟨code, failed⟩ := leaves.unallocated
        rw [allocated] at failed
        cases failed
    · exact iff_of_true (PutBody.release_took (took_kvPutPlace_searched short ran))
        fun leaves => found leaves.found

/-- A put that returns has restored the safe list, whatever the device does and whatever the
outcome, just when it does not leave a remembered address. -/
theorem put_restores_iff (store : NvmKvStore) (thread : ι) (outcome : Nat → Bool)
    (poolId : UInt32) (pair : NvmKvIovec) (allocation : Allocation) (run after : DeviceRun ι)
    (result : Except NvmErrorCode Nat)
    (ran : (kvPut store poolId pair allocation).run (answerWith store thread outcome) run =
      some (result, after)) :
    after.store.safeLbaList = run.store.safeLbaList ↔
      ¬LeavesRemembered store run.store poolId pair allocation := by
  unfold kvPut at ran
  rw [Program.run_bind] at ran
  obtain ⟨⟨body, between⟩, first, further⟩ := Option.bind_eq_some_iff.mp ran
  rw [← release_kvPutBody first, PutBody.release]
  dsimp only at further
  cases flag : body.insertLba with
  | true =>
    rw [flag] at further
    cases further
    rfl
  | false =>
    rw [flag] at further
    cases further
    rfl

end Put

/-- A put of the key `a`, with one byte of value and an aligned buffer. -/
def replacement : NvmKvIovec := ⟨[97], poolBuffer fun _ => 0, 1, 0, 0, true⟩

/-- The run in which the pair of the key `a` is cached and nothing is locked. -/
def cachedRun : DeviceRun Bool := ⟨cachedPair, 0, []⟩

/-- A put of the key `a`, with a value of 8000 bytes in a buffer that is not aligned. -/
def unalignedReplacement : NvmKvIovec := ⟨[97], ⟨1, fun _ => 0⟩, 8000, 0, 0, true⟩

/-- With an array the put of the cached key restores the safe list; for its one byte every
buffer of the pool is long enough. -/
theorem put_restores_allocated :
    ∃ result after, (kvPut cachingTerabyte 0 replacement
        ⟨⟨fun _ => 0, false⟩, some fun _ => sectorTrim 0⟩).run
          (answerWith cachingTerabyte false fun _ => true) cachedRun = some (result, after) ∧
      after.store.safeLbaList = cachedRun.store.safeLbaList := by
  have ran : ∃ result after, (kvPut cachingTerabyte 0 replacement
      ⟨⟨fun _ => 0, false⟩, some fun _ => sectorTrim 0⟩).run
        (answerWith cachingTerabyte false fun _ => true) cachedRun = some (result, after) :=
    ⟨_, _, rfl⟩
  obtain ⟨result, after, ran⟩ := ran
  refine ⟨result, after, ran, (put_restores_iff cachingTerabyte false _ 0 replacement _ cachedRun
    after result ran).mpr ?_⟩
  intro leaves
  obtain ⟨code, failed⟩ := leaves.unallocated
  cases failed

/-- When no buffer is long enough the put of the cached key fails and leaves its address on the
list. -/
theorem put_leaves_remembered :
    ¬∀ (store : NvmKvStore) (outcome : Nat → Bool) (poolId : UInt32) (pair : NvmKvIovec)
      (allocation : Allocation) (run after : DeviceRun Bool) (result : Except NvmErrorCode Nat),
      (∀ lba, run.store.safeLbaList lba = none) →
      (kvPut store poolId pair allocation).run (answerWith store false outcome) run =
        some (result, after) →
      after.store.safeLbaList = run.store.safeLbaList := by
  intro restores
  have ran : (kvPut cachingTerabyte 0 unalignedReplacement
      ⟨⟨fun _ => 0, false⟩, some fun _ => sectorTrim 0⟩).run
      (answerWith cachingTerabyte false fun _ => true) cachedRun =
        some (.error .outOfMemory, (cachedRun.hold false 130334720).release 0) := rfl
  have list := restores _ _ _ _ _ _ _ _ (fun _ => rfl) ran
  have held := congrFun list 130334720
  change some false = none at held
  cases held

end Nvmkv
