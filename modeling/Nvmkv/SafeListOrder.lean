import Nvmkv.LockOrder
import Nvmkv.ProbeAddresses
import Nvmkv.ReadingCalls
import Nvmkv.StoreCalls

/-!
# The order of the safe list

`insert_entry` waits while its address is on the safe list, and `kv_batch_put` and
`batch_delete_sync` wait while they hold the addresses they took before, in the
order in which the caller gave them. Nothing orders the addresses. Two such calls
that take the same two addresses in opposite orders wait for each other forever.

All calls wait through `insert_entry`, so that a call which has to wait was refused
just before. What the safe list makes of `Locks` follows, and with it the absence
of circular waits in every run in which a call that has to wait for an address
holds only lower ones.
-/

namespace Nvmkv

variable {ι : Type} {store : NvmKvStore}

/-- The addresses of the safe list as locks. -/
def safeListLocks (ι : Type) : Locks StoreOp StoreRes (StoreState ι) ι Nat where
  awaits
    | .awaitEntry lba => some lba
    | _ => none
  refused
    | .checkEntry lba, false => some lba
    | _, _ => none
  holder := StoreState.safeLbaList

/-- What a call does to the safe list: it inserts an address that was free, removes
one, or leaves the list alone. -/
theorem answer_safeLbaList {thread : ι} {op : StoreOp} {state after : StoreState ι}
    {answered : StoreRes op} (reply : answer store thread op state = some (answered, after)) :
    after.safeLbaList = state.safeLbaList ∨
      (∃ lba, state.safeLbaList lba = none ∧
        after.safeLbaList = Function.update state.safeLbaList lba (some thread)) ∨
      ∃ lba, op = .deleteEntry lba ∧
        after.safeLbaList = Function.update state.safeLbaList lba none := by
  cases op with
  | checkEntry lba =>
    rw [answer] at reply
    split_ifs at reply with free
    · refine Or.inr (Or.inl ⟨lba, Option.isNone_iff_eq_none.mp free, ?_⟩)
      rw [← (Prod.mk.inj (Option.some.inj reply)).2]
    · rw [← (Prod.mk.inj (Option.some.inj reply)).2]
      exact Or.inl rfl
  | awaitEntry lba =>
    rw [answer] at reply
    split_ifs at reply with free
    refine Or.inr (Or.inl ⟨lba, Option.isNone_iff_eq_none.mp free, ?_⟩)
    rw [← (Prod.mk.inj (Option.some.inj reply)).2]
  | deleteEntry lba =>
    rw [answer] at reply
    rw [← (Prod.mk.inj (Option.some.inj reply)).2]
    exact Or.inr (Or.inr ⟨lba, rfl, rfl⟩)
  | never => exact nomatch reply
  | _ =>
    rw [answer] at reply
    rw [← (Prod.mk.inj (Option.some.inj reply)).2]
    exact Or.inl rfl

/-- The safe list refuses an address only while it is on the list. -/
theorem safeListLocks_lawful : (safeListLocks ι).Lawful (answer store) where
  refusal := by
    intro thread op state answered after lock reply refused
    cases op with
    | checkEntry lba =>
      cases answered with
      | true => exact nomatch refused
      | false =>
        obtain rfl : lba = lock := Option.some.inj refused
        rw [answer] at reply
        split_ifs at reply with free
        · exact nomatch (Prod.mk.inj (Option.some.inj reply)).1
        · rw [← (Prod.mk.inj (Option.some.inj reply)).2]
          rw [Option.isNone_iff_eq_none] at free
          exact ⟨Option.ne_none_iff_exists'.mp free, fun _ => id⟩
    | _ => exact nomatch refused
  others := by
    intro thread op state answered after reply other apart held holds
    change after.safeLbaList held = some other at holds
    obtain same | ⟨lba, _, same⟩ | ⟨lba, _, same⟩ := answer_safeLbaList reply
    · rwa [same] at holds
    · rw [same, Function.update_apply] at holds
      split_ifs at holds with here
      · exact absurd (Option.some.inj holds).symm apart
      · exact holds
    · rw [same, Function.update_apply] at holds
      split_ifs at holds with here
      exact holds
  finite := by
    intro thread op state answered after reply few
    change {lba | after.safeLbaList lba ≠ none}.Finite
    change {lba | state.safeLbaList lba ≠ none}.Finite at few
    obtain same | ⟨lba, _, same⟩ | ⟨lba, _, same⟩ := answer_safeLbaList reply
    · rwa [same]
    · refine (few.insert lba).subset fun held taken => ?_
      rw [Set.mem_ofPred_eq, same, Function.update_apply] at taken
      split_ifs at taken with here
      · exact Or.inl here
      · exact Or.inr taken
    · refine few.subset fun held taken => ?_
      rw [Set.mem_ofPred_eq, same, Function.update_apply] at taken
      split_ifs at taken with here
      · exact absurd rfl taken
      · exact taken

section Programs

/-- A program that waits for an address only when the safe list has just refused
it. -/
def WaitsForList {α : Type} (ι : Type) (program : StoreM α) : Prop :=
  (safeListLocks ι).WaitsWhenRefused none program

variable {α β : Type}

/-- A program that has ended waits for nothing. -/
theorem waits_pure (result : α) : WaitsForList ι (pure result : StoreM α) := trivial

/-- Programs in a row wait in order when both do: the second one starts without a refusal. -/
theorem waits_bind {program : StoreM α} {rest : α → StoreM β} (first : WaitsForList ι program)
    (second : ∀ result, WaitsForList ι (rest result)) : WaitsForList ι (program >>= rest) :=
  Locks.WaitsWhenRefused.bind first second

/-- So does a choice of two. -/
theorem waits_ite {condition : Prop} [Decidable condition] {program other : StoreM α}
    (first : WaitsForList ι program) (second : WaitsForList ι other) :
    WaitsForList ι (if condition then program else other) := by
  split_ifs
  · exact first
  · exact second

/-- What reads only does not wait. -/
theorem waits_reads {program : StoreM α} (reads : program.Calls StoreOp.Reads) :
    WaitsForList ι program := by
  have free : ∀ last, (safeListLocks ι).WaitsWhenRefused last program := by
    induction program with
    | done result => exact fun _ => trivial
    | call op next inductionHypothesis =>
      intro last
      refine ⟨fun lock awaited => ?_, fun answered =>
        inductionHypothesis answered (reads.2 answered) _⟩
      cases op with
      | awaitEntry lba => exact reads.1.elim
      | _ => exact nomatch awaited
  exact free none

/-- `insert_entry` waits behind its own refusal. -/
theorem waits_insertEntry (lba : Nat) : WaitsForList ι (insertEntry lba) := by
  refine ⟨?_, fun inserted => ?_⟩
  · intro lock awaited
    exact nomatch awaited
  cases inserted with
  | true => trivial
  | false =>
    refine ⟨fun lock awaited => ?_, fun _ => trivial⟩
    exact awaited

/-- An address is taken off the list without waiting. -/
theorem waits_deleteLbaFromSafeList (lba : Nat) : WaitsForList ι (deleteLbaFromSafeList lba) :=
  Locks.WaitsWhenRefused.perform rfl

/-- A batch that is handed to the device waits for no address. -/
theorem waits_nvmWritev (iovec : List NvmIovec) : WaitsForList ι (nvmWritev iovec) :=
  waits_bind (Locks.WaitsWhenRefused.perform rfl) fun _ => waits_ite (waits_pure _) (waits_pure _)

/-- A round of the search for an address waits in the two places that insert it. Induction is on the
rounds. -/
theorem waits_kvGenLbaRead {poolId : UInt32} {pair : NvmKvIovec} {lba rounds : Nat}
    {insertLba : Bool} {buf : Region} :
    WaitsForList ι (kvGenLbaRead store poolId pair lba rounds insertLba buf) := by
  induction rounds generalizing insertLba buf with
  | zero => exact waits_reads reads_neverReturns
  | succ rounds inductionHypothesis =>
    have taken : ∀ (buf : Region) (found : SlotRead), WaitsForList ι (do
        let wait ← insertEntry lba
        if wait then kvGenLbaRead store poolId pair lba rounds true buf else pure found) :=
      fun _ _ => waits_bind (waits_insertEntry _) fun _ =>
        waits_ite inductionHypothesis (waits_pure _)
    refine waits_bind (waits_reads (reads_nvmReadv _)) fun read => ?_
    cases read with
    | error code => exact waits_pure _
    | ok regions =>
      refine waits_ite ?_ ?_
      · refine waits_bind (waits_reads (reads_kvExpire_keep _ _)) fun expired => ?_
        split
        · exact waits_ite (waits_pure _) (taken _ _)
        · exact waits_pure _
        · exact waits_ite (waits_ite (waits_pure _) (taken _ _)) (waits_pure _)
      · exact waits_ite (waits_bind (waits_deleteLbaFromSafeList _) fun _ => waits_pure _)
          (waits_pure _)

/-- The search at one address waits in order when the search behind it does. -/
theorem waits_kvGenLbaAt {poolId : UInt32} {pair : NvmKvIovec} {lba : Nat} {insertLba : Bool}
    {buf : Region} {next : Region → StoreM GenLba}
    (further : ∀ buf, WaitsForList ι (next buf)) :
    WaitsForList ι (kvGenLbaAt store poolId pair lba insertLba buf next) := by
  refine waits_bind waits_kvGenLbaRead fun read => ?_
  split
  · exact waits_pure _
  · exact waits_pure _
  · exact further _

/-- Induction is on the addresses of the key. -/
theorem waits_kvGenLbaProbes {poolId : UInt32} {pair : NvmKvIovec} {lbas : List Nat}
    {insertLba : Bool} {buf : Region} :
    WaitsForList ι (kvGenLbaProbes store poolId pair lbas insertLba buf) := by
  induction lbas generalizing insertLba buf with
  | nil => exact waits_pure _
  | cons lba rest inductionHypothesis =>
    refine waits_bind (waits_reads (reads_kvRangeExists _)) fun found => ?_
    split
    · exact waits_bind (waits_insertEntry _) fun wait =>
        waits_ite (waits_kvGenLbaAt fun _ => inductionHypothesis) (waits_pure _)
    · exact waits_pure _
    · exact waits_kvGenLbaAt fun _ => inductionHypothesis

/-- The search of a put, or of a pair of a batch, begins at any address of the key. -/
theorem waits_kvGenLba (poolId : UInt32) (pair : NvmKvIovec) (buf : Region) (insertLba : Bool)
    (lbaList : Option LbaList) :
    WaitsForList ι (kvGenLba store poolId pair buf insertLba lbaList) := by
  cases lbaList with
  | none => exact waits_kvGenLbaProbes
  | some chosen =>
    unfold kvGenLba
    dsimp only
    split
    · exact waits_pure _
    · exact waits_pure _
    · exact waits_kvGenLbaProbes

/-- What a put does with its address waits for no other one. -/
theorem waits_kvPutWrite (poolId : UInt32) (pair : NvmKvIovec) (layout : WriteLayout)
    (placed : GenLba) (memory : Option (Nat → NvmIovec)) (context : NvmKvCacheContext) :
    WaitsForList ι (kvPutWrite store poolId pair layout placed memory context) := by
  cases memory with
  | none => exact waits_pure _
  | some memory =>
    unfold kvPutWrite
    dsimp only
    split
    · exact waits_pure _
    · refine waits_bind (waits_reads (reads_kvProcessForWrite _ _ _ _ _ _)) fun written => ?_
      refine waits_bind (waits_nvmWritev _) fun retCode => ?_
      cases retCode with
      | error code => exact waits_pure _
      | ok done =>
        exact waits_ite (waits_bind (Locks.WaitsWhenRefused.perform rfl) fun _ => waits_pure _)
          (waits_pure _)

/-- A put whose search has failed ends at once. -/
theorem waits_putPlaced (poolId : UInt32) (pair : NvmKvIovec) (allocation : Allocation)
    (context : NvmKvCacheContext) (layout : WriteLayout) (placed : GenLba) :
    WaitsForList ι
      (match placed.retCode with
      | .error code => pure ⟨.error code, placed.keyHashVal, placed.insertLba⟩
      | .ok () => kvPutWrite store poolId pair layout placed allocation.iovec context) := by
  cases placed.retCode with
  | error code => exact waits_pure _
  | ok done => exact waits_kvPutWrite _ _ _ _ _ _

/-- A put inserts a remembered address, or searches for one. -/
theorem waits_kvPutPlace (poolId : UInt32) (pair : NvmKvIovec) (allocation : Allocation)
    (context : NvmKvCacheContext) (existsInCache : Bool) :
    WaitsForList ι (kvPutPlace store poolId pair allocation context existsInCache) := by
  unfold kvPutPlace
  split
  · exact waits_pure _
  · exact waits_ite (waits_bind (waits_pure _) (waits_putPlaced _ _ _ _ _))
      (waits_bind (waits_kvGenLba _ _ _ _ _) (waits_putPlaced _ _ _ _ _))

/-- The cache is looked up before, which waits for nothing. -/
theorem waits_kvPutBody (poolId : UInt32) (pair : NvmKvIovec) (allocation : Allocation) :
    WaitsForList ι (kvPutBody store poolId pair allocation) := by
  refine waits_bind (waits_reads (reads_kvValidatePoolId _)) fun valid => ?_
  refine waits_ite (waits_pure _) (waits_ite ?_ (waits_kvPutPlace _ _ _ _ _))
  refine waits_bind (Locks.WaitsWhenRefused.perform rfl) fun found => ?_
  refine waits_ite (waits_ite (waits_pure _) (waits_ite ?_ (waits_kvPutPlace _ _ _ _ _)))
    (waits_kvPutPlace _ _ _ _ _)
  exact waits_bind (waits_insertEntry _) fun wait =>
    waits_ite (waits_bind (waits_deleteLbaFromSafeList _) fun _ => waits_kvPutPlace _ _ _ _ _)
      (waits_kvPutPlace _ _ _ _ _)

/-- The whole put with the release of its address. -/
theorem waits_kvPut (poolId : UInt32) (pair : NvmKvIovec) (allocation : Allocation) :
    WaitsForList ι (kvPut store poolId pair allocation) :=
  waits_bind (waits_kvPutBody _ _ _) fun _ =>
    waits_ite (waits_bind (waits_deleteLbaFromSafeList _) fun _ => waits_pure _) (waits_pure _)

/-- A pair of a batch inserts a remembered address unless the batch has it. -/
theorem waits_batchCached (poolId : UInt32) (pair : NvmKvIovec) (state : BatchState) :
    WaitsForList ι (batchCached store poolId pair state) := by
  refine waits_ite ?_ (waits_pure _)
  refine waits_bind (Locks.WaitsWhenRefused.perform rfl) fun found => ?_
  refine waits_ite (waits_ite (waits_pure _) (waits_ite ?_ (waits_pure _))) (waits_pure _)
  split
  · exact waits_bind (waits_insertEntry _) fun wait =>
      waits_ite (waits_bind (waits_deleteLbaFromSafeList _) fun _ => waits_pure _) (waits_pure _)
  · exact waits_pure _

/-- The vectors of a pair are prepared without waiting. -/
theorem waits_batchPrepare (poolId : UInt32) (pair : NvmKvIovec) (layout : WriteLayout)
    (placed : GenLba) (context : NvmKvCacheContext) (state : BatchState) :
    WaitsForList ι (batchPrepare store poolId pair layout placed context state) := by
  unfold batchPrepare
  dsimp only
  split
  · exact waits_pure _
  · exact waits_ite (waits_pure _)
      (waits_bind (waits_reads (reads_kvProcessForWrite _ _ _ _ _ _)) fun _ => waits_pure _)

/-- A pair of a batch searches for its address as a put does. -/
theorem waits_batchPair (poolId : UInt32) (pair : NvmKvIovec) (buf : PoolBuf)
    (state : BatchState) : WaitsForList ι (batchPair store poolId pair buf state) := by
  refine waits_ite (waits_pure _) (waits_bind (waits_batchCached _ _ _) fun cached => ?_)
  cases cached with
  | error code => exact waits_pure _
  | ok cached =>
    dsimp only
    split
    · exact waits_pure _
    · refine waits_ite (waits_pure _) (waits_bind ?_ fun placed => ?_)
      · exact waits_ite (waits_pure _) (waits_kvGenLba _ _ _ _ _)
      · split
        · exact waits_pure _
        · exact waits_batchPrepare _ _ _ _ _ _

/-- Induction is on the pairs of the batch. -/
theorem waits_batchPairs {poolId : UInt32} {buf : Nat → PoolBuf} {i : Nat}
    {kvIov : List NvmKvIovec} {state : BatchState} :
    WaitsForList ι (batchPairs store poolId buf i kvIov state) := by
  induction kvIov generalizing i state with
  | nil => exact waits_pure _
  | cons pair rest inductionHypothesis =>
    refine waits_bind (waits_batchPair _ _ _ _) fun prepared => ?_
    split
    · exact waits_pure _
    · exact inductionHypothesis

/-- Induction is on the addresses that are taken off the list. -/
theorem waits_deleteLbas (lbas : List Nat) : WaitsForList ι (deleteLbas lbas) := by
  induction lbas with
  | nil => exact waits_pure _
  | cons lba rest inductionHypothesis =>
    exact waits_bind (waits_deleteLbaFromSafeList _) fun _ => inductionHypothesis

/-- What a batch does with its addresses waits for no other one. -/
theorem waits_batchFinish (state : BatchState) : WaitsForList ι (batchFinish store state) := by
  have written : WaitsForList ι (batchWrite store state) := by
    refine waits_ite (waits_nvmWritev _) (waits_bind (waits_nvmWritev _) fun retCode => ?_)
    cases retCode with
    | error code => exact waits_pure _
    | ok done => exact waits_ite (waits_nvmWritev _) (waits_pure _)
  refine waits_bind written fun retCode => ?_
  cases retCode with
  | error code => exact waits_pure _
  | ok done =>
    exact waits_ite (waits_bind (Locks.WaitsWhenRefused.perform rfl) fun _ => waits_pure _)
      (waits_pure _)

/-- The whole batch with the release of its addresses. -/
theorem waits_kvBatchPut (poolId : UInt32) (kvIov : List NvmKvIovec)
    (allocation : BatchAllocation) : WaitsForList ι (kvBatchPut store poolId kvIov allocation) := by
  have released : ∀ state : BatchState, WaitsForList ι (batchRelease state) :=
    fun _ => waits_ite (waits_deleteLbas _) (waits_pure _)
  refine waits_bind (waits_reads (reads_kvValidatePoolId _)) fun valid => ?_
  refine waits_ite (waits_pure _) (waits_ite (waits_pure _) ?_)
  cases allocation.iovec with
  | none => exact waits_pure _
  | some arrays =>
    refine waits_bind waits_batchPairs fun prepared => ?_
    split
    · exact waits_bind (released _) fun _ => waits_pure _
    · exact waits_bind (waits_batchFinish _) fun _ =>
        waits_bind (released _) fun _ => waits_pure _

/-- The addresses of a batch that is deleted are inserted one after the other. Induction follows
them. -/
theorem waits_insertEntries (lbas : List Nat) : WaitsForList ι (insertEntries lbas) := by
  induction lbas with
  | nil => exact waits_pure _
  | cons lba rest inductionHypothesis =>
    exact waits_bind (waits_insertEntry _) fun _ => inductionHypothesis

/-- A batch that is deleted waits for its addresses only. -/
theorem waits_batchDeleteSync (iovec : List NvmIovec) (deleteFromCache : Bool) :
    WaitsForList ι (store.batchDeleteSync iovec deleteFromCache) := by
  have released : ∀ retCode : Except NvmErrorCode Unit, WaitsForList ι (do
      deleteLbas (iovec.map (·.iovLba))
      pure retCode) := fun _ => waits_bind (waits_deleteLbas _) fun _ => waits_pure _
  refine waits_bind (waits_insertEntries _) fun _ => ?_
  refine waits_bind (waits_nvmWritev _) fun retCode => ?_
  exact waits_ite (waits_bind (Locks.WaitsWhenRefused.perform rfl) fun _ => released _)
    (released _)

/-- Induction is on the fuel of the loop. -/
theorem waits_deleteRangeLoop {delLba fuel remaining totalIovs : Nat} :
    WaitsForList ι (deleteRangeLoop store.capabilities delLba fuel remaining totalIovs) := by
  induction fuel generalizing remaining totalIovs with
  | zero => exact waits_reads reads_neverReturns
  | succ fuel inductionHypothesis =>
    refine waits_bind (waits_nvmWritev _) fun retCode => ?_
    cases retCode with
    | error code => exact waits_pure _
    | ok done => exact waits_ite (waits_pure _) inductionHypothesis

/-- A delete trims its pair without waiting. -/
theorem waits_kvDeleteTrim (keyHash : Nat) (allocated : Bool) :
    WaitsForList ι (kvDeleteTrim store keyHash allocated) := by
  refine waits_bind ?_ fun retCode => waits_bind (waits_deleteLbaFromSafeList _) fun _ =>
    waits_pure _
  exact waits_ite waits_deleteRangeLoop (waits_pure _)

/-- A delete inserts the address that it has found. -/
theorem waits_kvDeleteAt (poolId : UInt32) (key : List UInt8) (keyHash : Nat)
    (buf : Option Region) (allocated : Bool) :
    WaitsForList ι (kvDeleteAt store poolId key keyHash buf allocated) := by
  refine waits_bind (waits_insertEntry _) fun wait => waits_ite ?_ (waits_kvDeleteTrim _ _)
  cases buf with
  | none => exact waits_bind (waits_deleteLbaFromSafeList _) fun _ => waits_pure _
  | some buf =>
    refine waits_bind (waits_reads (reads_kvReadMedia _ _ _ _ _ _)) fun read => ?_
    cases read with
    | error code => exact waits_bind (waits_deleteLbaFromSafeList _) fun _ => waits_pure _
    | ok read => exact waits_kvDeleteTrim _ _

/-- The whole delete with the release of its address. -/
theorem waits_kvDelete (poolId : UInt32) (key : List UInt8) (buf : Option Region)
    (allocated : Bool) : WaitsForList ι (kvDelete store poolId key buf allocated) := by
  have searched : WaitsForList ι (kvDeleteSearch store poolId key buf allocated) := by
    cases buf with
    | none => exact waits_pure _
    | some buf =>
      refine waits_bind (waits_reads (reads_kvReadMedia _ _ _ _ _ _)) fun read => ?_
      cases read with
      | error code => exact waits_pure _
      | ok read => exact waits_kvDeleteAt _ _ _ _ _
  refine waits_bind (waits_reads (reads_kvValidatePoolId _)) fun valid => ?_
  refine waits_ite (waits_pure _) (waits_ite ?_ searched)
  refine waits_bind (Locks.WaitsWhenRefused.perform rfl) fun entry => ?_
  cases entry with
  | none => exact searched
  | some entry => exact waits_kvDeleteAt _ _ _ _ _

/-- So does each of the calls of the store, one case for each. -/
theorem waits_call (call : StoreCall) : WaitsForList ι (call.program store) := by
  cases call with
  | kvPut poolId pair allocation => exact waits_bind (waits_kvPut _ _ _) fun _ => waits_pure _
  | kvBatchPut poolId kvIov allocation =>
    exact waits_bind (waits_kvBatchPut _ _ _) fun _ => waits_pure _
  | kvDelete poolId key buf allocated =>
    exact waits_bind (waits_kvDelete _ _ _ _) fun _ => waits_pure _
  | batchDeleteSync iovec deleteFromCache =>
    exact waits_bind (waits_batchDeleteSync _ _) fun _ => waits_pure _

end Programs

/-- No calls wait for each other in a circle in any run in which a call that finds
an address taken holds only lower addresses. -/
theorem no_circular_wait [DecidableEq ι] (store : NvmKvStore) (calls : ι → StoreCall)
    {state : StoreState ι} (few : {lba | state.safeLbaList lba ≠ none}.Finite)
    {config : StoreConfig ι}
    (reached : Config.Reachable (answer store) (safeListLocks ι).RefusedInOrder
      (startCalls store state calls) config) (circle : Set ι) :
    ¬(safeListLocks ι).CircularWait config circle := by
  have waits : ∀ thread, (safeListLocks ι).WaitsWhenRefused none
      ((startCalls store state calls).threads thread) := fun thread => waits_call (calls thread)
  have held : {lba | (safeListLocks ι).holder (startCalls store state calls).shared lba ≠
      none}.Finite := few
  exact Locks.reachable_not_circularWait safeListLocks_lawful waits held reached circle

/-- A vector that trims one sector. -/
def sectorTrim (lba : Nat) : NvmIovec := ⟨poolBuffer fun _ => 0, 512, lba, .trim⟩

/-- A store with nothing on it that two threads use. -/
def blankTerabyte : StoreState Bool := .opened (fun _ => none) (fun _ => false) 0

/-- Two deletions of the same two addresses in opposite orders. -/
def oppositeDeletes (thread : Bool) : StoreCall :=
  if thread then .batchDeleteSync [sectorTrim 12288, sectorTrim 16384] false
  else .batchDeleteSync [sectorTrim 16384, sectorTrim 12288] false

/-- Each of two deletions has taken its first address and waits for the other's. -/
theorem opposite_deletes_wait :
    ¬∀ (store : NvmKvStore) (calls : Bool → StoreCall) (state : StoreState Bool)
      (config : StoreConfig Bool), (∀ lba, state.safeLbaList lba = none) →
      Config.Reachable (answer store) (fun _ _ _ => True) (startCalls store state calls) config →
      ∀ circle : Set Bool, ¬(safeListLocks Bool).CircularWait config circle := by
  intro never
  have begun : Config.Reachable (answer NvmKvStore.terabyteStore) (fun _ _ _ => True)
      (startCalls NvmKvStore.terabyteStore blankTerabyte oppositeDeletes)
      (startCalls NvmKvStore.terabyteStore blankTerabyte oppositeDeletes) := .start
  have first := begun.advance true true _ rfl trivial rfl
  have second := first.advance false true _ rfl trivial rfl
  have third := second.advance true false _ rfl trivial rfl
  have fourth := third.advance false false _ rfl trivial rfl
  refine never _ _ _ _ (fun _ => rfl) fourth Set.univ ⟨⟨true, trivial⟩, ?_⟩
  intro thread _
  cases thread with
  | true => exact ⟨_, _, 16384, false, rfl, rfl, rfl, trivial, Bool.noConfusion⟩
  | false => exact ⟨_, _, 12288, true, rfl, rfl, rfl, trivial, Bool.noConfusion⟩

/-- Two deletions that share their highest address and name it last. -/
def orderedDeletes (thread : Bool) : StoreCall :=
  if thread then .batchDeleteSync [sectorTrim 12288, sectorTrim 16384] false
  else .batchDeleteSync [sectorTrim 8192, sectorTrim 16384] false

/-- An address that is free is not refused. -/
theorem refusedInOrder_free {thread : Bool} {lba : Nat} {state : StoreState Bool}
    (free : state.safeLbaList lba = none) :
    (safeListLocks Bool).RefusedInOrder thread (.checkEntry lba) state := by
  rintro lock ⟨answered, refused⟩ ⟨other, taken⟩
  cases answered with
  | true => cases refused
  | false =>
    cases refused
    change state.safeLbaList lba = some other at taken
    rw [free] at taken
    cases taken

/-- An address that is higher than all that the caller holds is refused in order. -/
theorem refusedInOrder_above {thread : Bool} {lba : Nat} {state : StoreState Bool}
    (above : ∀ held, state.safeLbaList held = some thread → held < lba) :
    (safeListLocks Bool).RefusedInOrder thread (.checkEntry lba) state := by
  rintro lock ⟨answered, refused⟩ _ held holds
  cases answered with
  | true => cases refused
  | false =>
    cases refused
    exact above held holds

/-- One deletion holds both of its addresses; the other one holds a lower address and waits for
the one that they share. Nobody waits in a circle. -/
theorem no_circular_wait_in_order :
    ∃ (config : StoreConfig Bool) (next : Unit → StoreM Unit),
      config.threads false = .call (.awaitEntry 16384) next ∧
      config.shared.safeLbaList 16384 = some true ∧ config.shared.safeLbaList 8192 = some false ∧
      ∀ circle, ¬(safeListLocks Bool).CircularWait config circle := by
  have begun : Config.Reachable (answer NvmKvStore.terabyteStore)
      (safeListLocks Bool).RefusedInOrder
      (startCalls NvmKvStore.terabyteStore blankTerabyte orderedDeletes)
      (startCalls NvmKvStore.terabyteStore blankTerabyte orderedDeletes) := .start
  have first := begun.advance true true _ rfl (refusedInOrder_free rfl) rfl
  have second := first.advance true true _ rfl (refusedInOrder_free rfl) rfl
  have third := second.advance false true _ rfl (refusedInOrder_free rfl) rfl
  have fourth := third.advance false false _ rfl (refusedInOrder_above fun held holds => by
    change held < 16384
    simp only [sectorTrim, Function.update_apply, blankTerabyte, StoreState.opened] at holds
    split_ifs at holds
    · omega
    all_goals cases holds) rfl
  have none : {lba | blankTerabyte.safeLbaList lba ≠ none}.Finite := by
    refine Set.finite_empty.subset ?_
    intro lba taken
    exact taken rfl
  exact ⟨_, _, rfl, rfl, rfl,
    no_circular_wait NvmKvStore.terabyteStore orderedDeletes none fourth⟩

end Nvmkv
