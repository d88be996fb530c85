import Nvmkv.AsyncExpiry
import Nvmkv.LonePut
import Nvmkv.LoneRead
import Nvmkv.RoundTrip
import Nvmkv.SearchingCalls

/-!
# When expiry spares live pairs

What is queued is expired, and it stays so until it is trimmed, under a condition on
the steps: a pair is queued as it is still stored, puts leave the sectors of queued
pairs alone, and no expiry time is beyond the 32 bits of its field.

A queued address is not tied to the pair that was read there. A put that takes the
address before its block is full and trimmed loses its pair to the worker.
-/

namespace Nvmkv

section Records

variable {ι : Type} {store : NvmKvStore}

/-- A pair that has expired stays so. -/
theorem StoredPut.Expired.later {put : StoredPut} {clock time : Nat} (expired : put.Expired clock)
    (after : clock ≤ time) : put.Expired time := by
  obtain ⟨expiry, some, passed⟩ := expired
  exact ⟨expiry, some, passed.trans_le after⟩

/-- Sectors that hold only expired pairs stay so while time passes and nothing is put
there. -/
theorem SectorsExpired.later {before after : AsyncState ι} {iovec : List NvmIovec}
    (expired : SectorsExpired store before iovec)
    (same : ∀ lba put, BatchCovers store iovec lba → after.pairs lba = some put →
      before.pairs lba = some put)
    (passed : before.store.clock ≤ after.store.clock) : SectorsExpired store after iovec :=
  fun lba put covered stored => (expired lba put covered (same lba put covered stored)).later passed

/-- The first write vector that a put hands over starts at the address of the put. -/
theorem firstWrite_lba {capabilities : NvmKvStoreCapabilities} {layout : WriteLayout}
    {buf : Region} {value : Memory} {valueLen lba count : Nat} {trims : List NvmIovec}
    {vector : NvmIovec} (trim : ∀ passed ∈ trims, passed.iovOpcode = .trim)
    (found : ((trims ++ pairIovec capabilities layout buf value valueLen lba).take count).find?
      (·.iovOpcode = .write) = some vector) : vector.iovLba = lba := by
  obtain ⟨first, rest, split, here, writes, _⟩ :=
    pairIovec_first capabilities layout buf value valueLen lba
  have passed : (trims.take count).find? (·.iovOpcode = .write) = none := by
    rw [List.find?_eq_none]
    intro other member
    rw [trim other (List.mem_of_mem_take member)]
    decide
  rw [split, List.take_append, List.find?_append, passed, Option.none_or] at found
  cases left : count - trims.length with
  | zero =>
    rw [left] at found
    exact nomatch found
  | succ more =>
    simp only [left, List.take_succ_cons, List.find?_cons, writes, decide_true] at found
    rw [← Option.some.inj found, here]

/-- What a put leaves in the sector at its address is its first sector. -/
theorem put_firstSector {poolId : UInt32} {pair : NvmKvIovec} {layout : WriteLayout}
    {buf : Region} {clock lba count : Nat} {trims : List NvmIovec} {media : Media}
    (bounded : pair.valueLen ≤ nvmKvMaxValueSize)
    (trim : ∀ passed ∈ trims, passed.iovOpcode = .trim)
    (covered : BatchCovers store ((trims ++ putIovec store poolId pair layout buf clock lba).take
      count) lba)
    (mapped : (media.applyBatch store.sectorSize ((trims ++ putIovec store poolId pair layout buf
      clock lba).take count) lba).isSome) :
    media.applyBatch store.sectorSize ((trims ++ putIovec store poolId pair layout buf clock
      lba).take count) lba = some (firstSector store poolId pair layout buf clock) := by
  have limit : (nvmKvMaxValueSize : Nat) = 1047552 := rfl
  obtain ⟨vector, taken, covers, content⟩ := @Media.applyBatch_covered _ _ _ media covered
  rcases List.mem_append.mp (List.mem_of_mem_take taken) with passed | write
  · rw [content, Media.vectorContent, trim vector passed] at mapped
    exact Bool.noConfusion mapped
  · obtain ⟨_, written⟩ := pairIovec_content _ _ pair.value (by omega) lba media write covers
    exact (content.trans written).trans (pairWritten_first _ _ _ _ _ _)

end Records

section Store

variable {ι : Type} [DecidableEq ι] {store : NvmKvStore} {calls : ι → AsyncCall} {thread : ι}

/-- What the machine does at the calls of the store. -/
abbrev storeAnswer (store : NvmKvStore) (calls : ι → AsyncCall) :
    ι → Program.Handler StoreOp StoreRes (AsyncState ι) := fun thread =>
  Program.Handler.restrict AsyncOp.store (fun _ answered => answered)
    (answerAsync store calls thread)

/-- What the threads owe each other at the calls of the store. -/
abbrev storeDiscipline (store : NvmKvStore) (calls : ι → AsyncCall) :
    Discipline StoreOp (AsyncState ι) ι := (expiryDiscipline store calls).restrict AsyncOp.store

/-- The store answers as it does without the records, which only note the call. -/
theorem storeAnswer_eq {op : StoreOp} {state reached : AsyncState ι} {answered : StoreRes op}
    (reply : storeAnswer store calls thread op state = some (answered, reached)) :
    ∃ after, answer store thread op state.store = some (answered, after) ∧
      reached = state.noted store (calls thread) thread op after := by
  unfold storeAnswer Program.Handler.restrict answerAsync at reply
  rw [Option.map_map, Option.map_eq_some_iff] at reply
  obtain ⟨⟨made, after⟩, made', same⟩ := reply
  obtain ⟨rfl, rfl⟩ := Prod.mk.inj same
  exact ⟨after, made', rfl⟩

/-- The calls that neither hand a batch to the device nor queue a pair. -/
def StoreOp.Quiet : StoreOp → Prop
  | .batchAtomic _ | .updateExpiryQueue _ _ => False
  | _ => True

/-- What a search asks is noted nowhere. -/
theorem StoreOp.Searches.quiet {op : StoreOp} (searches : op.Searches) : op.Quiet := by
  cases op with
  | batchAtomic iovec => exact searches.elim id id
  | updateExpiryQueue keyLoc hdr => exact searches.elim id id
  | _ => trivial

/-- A quiet call changes the safe list, the cache and when its thread last asked for the
time at most. -/
theorem StoreOp.Quiet.unchanged {op : StoreOp} (quiet : op.Quiet) {state reached : AsyncState ι}
    {answered : StoreRes op}
    (reply : storeAnswer store calls thread op state = some (answered, reached)) :
    ∃ safeLbaList cache asked, (∀ other, other ≠ thread → asked other = state.asked other) ∧
      reached = { state with
        store := { state.store with safeLbaList := safeLbaList, cache := cache }
        asked := asked } := by
  obtain ⟨after, made, rfl⟩ := storeAnswer_eq reply
  cases op with
  | batchAtomic iovec => exact quiet.elim
  | updateExpiryQueue keyLoc hdr => exact quiet.elim
  | time =>
    obtain ⟨_, rfl⟩ := Prod.mk.inj (Option.some.inj made)
    exact ⟨_, _, _, fun other apart => Function.update_of_ne apart _ _, rfl⟩
  | checkEntry lba =>
    rw [answer] at made
    split_ifs at made <;> obtain ⟨_, rfl⟩ := Prod.mk.inj (Option.some.inj made) <;>
      exact ⟨_, _, _, fun _ _ => rfl, rfl⟩
  | awaitEntry lba =>
    rw [answer] at made
    split_ifs at made
    obtain ⟨_, rfl⟩ := Prod.mk.inj (Option.some.inj made)
    exact ⟨_, _, _, fun _ _ => rfl, rfl⟩
  | never => cases made
  | _ =>
    obtain ⟨_, rfl⟩ := Prod.mk.inj (Option.some.inj made)
    exact ⟨_, _, _, fun _ _ => rfl, rfl⟩

/-- Quiet calls do not matter to what is said about the records of a thread and the
time that has passed. -/
theorem ignores_quiet {held : AsyncState ι → Prop}
    (stable : (storeDiscipline store calls).Stable thread held)
    (same : ∀ {before after : AsyncState ι}, held before →
      after.popped thread = before.popped thread → after.store.clock = before.store.clock →
      held after) :
    (storeDiscipline store calls).Ignores (storeAnswer store calls) thread StoreOp.Quiet held where
  stable := stable
  kept := by
    intro op state quiet invariant holds
    refine ⟨?_, ?_⟩
    · change (calls thread).TrimsExpired store (.store op) state
      cases calls thread with
      | startThread rounds =>
        cases op with
        | batchAtomic iovec => exact quiet.elim
        | _ => trivial
      | _ => trivial
    · intro answered reached _ reply
      obtain ⟨safeLbaList, cache, asked, others, rfl⟩ := quiet.unchanged reply
      exact ⟨⟨invariant.recorded, invariant.queued, invariant.popped⟩,
        fun other apart => ⟨others other apart, rfl, Nat.le_refl _⟩, same holds rfl rfl⟩

/-- So searches are outlines over the records as they are over the store. -/
theorem ignores_searching : (storeDiscipline store calls).Ignores (storeAnswer store calls) thread
    StoreOp.Searches fun _ => True where
  stable := fun _ _ _ _ _ _ => trivial
  kept := fun searches => (ignores_quiet (fun _ _ _ _ _ _ => trivial) fun _ _ _ => trivial).kept
    searches.quiet

/-- The state after a batch of a thread, with the records. -/
def AsyncState.batched (store : NvmKvStore) (call : AsyncCall) (thread : ι)
    (state : AsyncState ι) (iovec : List NvmIovec) : AsyncState ι :=
  state.noted store call thread (.batchAtomic iovec)
    { state.store with
      media := state.store.media.applyBatch store.sectorSize iovec
      log := state.store.log ++ [(thread, iovec)] }

/-- A batch keeps the discipline when it puts nothing in sectors that are to be trimmed. -/
theorem ExpiryInvariant.batched {state : AsyncState ι} {iovec : List NvmIovec}
    (invariant : ExpiryInvariant store state)
    (recorded : PairsRecorded (state.batched store (calls thread) thread iovec))
    (spared : ∀ lba put, AwaitsTrim store state lba →
      (state.batched store (calls thread) thread iovec).pairs lba = some put →
        state.pairs lba = some put) :
    ExpiryInvariant store (state.batched store (calls thread) thread iovec) ∧
      ∀ other, other ≠ thread → (storeDiscipline store calls).rely other state
        (state.batched store (calls thread) thread iovec) := by
  refine ⟨⟨recorded, ?_, ?_⟩, ?_⟩
  · intro block member
    exact (invariant.queued block member).later (fun lba put covered =>
      spared lba put (.inl ⟨block, member, covered⟩)) (Nat.le_refl _)
  · intro other
    by_cases own : other = thread
    · subst own
      have none : (state.batched store (calls other) other iovec).popped other = [] :=
        Function.update_self _ _ _
      rw [none]
      rintro lba put ⟨_, absent, _⟩
      exact nomatch absent
    · have kept : (state.batched store (calls thread) thread iovec).popped other =
          state.popped other := Function.update_of_ne own _ _
      rw [kept]
      exact (invariant.popped other).later (fun lba put covered =>
        spared lba put (.inr ⟨other, covered⟩)) (Nat.le_refl _)
  · exact fun other apart => ⟨rfl, Function.update_of_ne apart _ _, Nat.le_refl _⟩

/-- The records agree with the device after the batch of a put. -/
theorem recorded_put {poolId : UInt32} {pair : NvmKvIovec} {allocation : Allocation}
    {state : AsyncState ι} {buf : Region} {memory : Nat → NvmIovec} {trims : List NvmIovec}
    {clock lba trimLen : Nat}
    (call : calls thread = .kvPut poolId pair allocation) (recorded : PairsRecorded state)
    (short : pair.key.length ≤ nvmKvMaxKeySize) (bounded : pair.valueLen ≤ nvmKvMaxValueSize)
    (trimmed : kvProcessForTrim store.capabilities pair.valueLen trimLen lba = .ok trims)
    (filled : VectorsFilled store.capabilities pair.key.length pair.value pair.valueLen)
    (asked : putExpiry store pair ≠ 0 → state.asked thread = clock)
    (fits : putExpiry store pair = 0 ∨ putExpiry store pair + state.asked thread < 2 ^ 32) :
    PairsRecorded (state.batched store (calls thread) thread (handedIovec memory
      (trims ++ putIovec store poolId pair (writeLayout store.capabilities pair.key.length
        pair.value pair.valueLen) buf clock lba)
      (writeLayout store.capabilities pair.key.length pair.value pair.valueLen).iovCount)) := by
  have enough : (writeLayout store.capabilities pair.key.length pair.value
      pair.valueLen).iovCount ≤ (trims ++ putIovec store poolId pair (writeLayout
        store.capabilities pair.key.length pair.value pair.valueLen) buf clock lba).length := by
    have counted : _ ≤ _ := filled
    rw [List.length_append, putIovec, pairIovec_length]
    omega
  have trim : ∀ passed ∈ trims, passed.iovOpcode = .trim := fun passed member =>
    (kvProcessForTrim_starts bounded trimmed member).2
  rw [handedIovec_take memory _ enough]
  intro sector put stored here
  change (if BatchCovers store _ sector then _ else state.pairs sector) = some put at stored
  split_ifs at stored with covered mapped
  · rw [call] at stored
    obtain ⟨vector, first, rfl⟩ := Option.map_eq_some_iff.mp stored
    have address : vector.iovLba = lba := firstWrite_lba trim first
    obtain rfl : lba = sector := address.symm.trans here
    have content := put_firstSector bounded trim covered mapped
    obtain ⟨_, _, expiry⟩ := @readHeader_firstSector store poolId pair buf clock short bounded
    refine ⟨_, content, expiry.trans ?_⟩
    dsimp only
    by_cases never : putExpiry store pair = 0
    · rw [if_pos never, absoluteExpiry, if_pos never]
      rfl
    · rw [if_neg never, absoluteExpiry, if_neg never, asked never, Nat.mod_mod,
        Nat.mod_eq_of_lt (by have room := fits.resolve_left never; rwa [asked never] at room)]
      rfl
  · obtain ⟨content, same, expiry⟩ := recorded sector put stored here
    exact ⟨content, (applyBatch_uncovered covered).trans same, expiry⟩

/-- The vectors of a put, with the time that the put asked for. -/
theorem spares_kvProcessForWrite {poolId : UInt32} {pair : NvmKvIovec} {layout : WriteLayout}
    {buf : Region} {lba : Nat} :
    (storeDiscipline store calls).Outline (storeAnswer store calls) thread
      (kvProcessForWrite store.capabilities poolId pair layout buf (putExpiry store pair) lba)
      (fun _ => True)
      fun prepared state => ∃ clock,
        (putExpiry store pair ≠ 0 → state.asked thread = clock) ∧
          prepared = (putIovec store poolId pair layout buf clock lba,
            absoluteExpiry (putExpiry store pair) clock) := by
  unfold kvProcessForWrite
  split_ifs with never
  · exact fun _ _ _ => ⟨0, fun some => absurd never some, rfl⟩
  · have asked : (storeDiscipline store calls).Outline (storeAnswer store calls) thread currentTime
        (fun _ => True) fun time state => state.asked thread = time := by
      refine Discipline.Outline.perform (fun _ _ _ _ _ _ => trivial) ?_
      intro state invariant _
      obtain ⟨safe, answered⟩ := (ignores_quiet (fun _ _ _ _ _ _ => trivial)
        fun _ _ _ => trivial).kept (show StoreOp.Quiet .time from trivial) invariant trivial
      refine ⟨safe, fun time reached allowed reply => ?_⟩
      obtain ⟨kept, relied, _⟩ := answered allowed reply
      refine ⟨kept, relied, ?_⟩
      obtain ⟨after, made, rfl⟩ := storeAnswer_eq reply
      obtain ⟨rfl, rfl⟩ := Prod.mk.inj (Option.some.inj made)
      exact Function.update_self _ _ _
    exact Discipline.Outline.bind asked fun time state _ same => ⟨time, fun _ => same, rfl⟩

/-- The batch of a put spares what is to be trimmed. -/
theorem spares_put_nvmWritev {poolId : UInt32} {pair : NvmKvIovec} {allocation : Allocation}
    (call : calls thread = .kvPut poolId pair allocation) {clock : Nat} {iovec : List NvmIovec}
    (recorded : ∀ state : AsyncState ι, PairsRecorded state →
      (putExpiry store pair ≠ 0 → state.asked thread = clock) →
      (putExpiry store pair = 0 ∨ putExpiry store pair + state.asked thread < 2 ^ 32) →
      PairsRecorded (state.batched store (calls thread) thread iovec)) :
    (storeDiscipline store calls).Outline (storeAnswer store calls) thread (nvmWritev iovec)
      (fun state => putExpiry store pair ≠ 0 → state.asked thread = clock) fun _ _ => True := by
  have handed : (storeDiscipline store calls).Outline (storeAnswer store calls) thread
      (nvmBatchAtomicOperations iovec)
      (fun state => putExpiry store pair ≠ 0 → state.asked thread = clock) fun _ _ => True := by
    refine Discipline.Outline.perform ?_ ?_
    · exact fun _ _ _ _ relied asked some => relied.1.trans (asked some)
    · intro state invariant asked
      refine ⟨?_, ?_⟩
      · change (calls thread).TrimsExpired store (.store (.batchAtomic iovec)) state
        rw [call]
        trivial
      · intro answered reached allowed reply
        obtain ⟨after, made, rfl⟩ := storeAnswer_eq reply
        obtain ⟨_, rfl⟩ := Prod.mk.inj (Option.some.inj made)
        have spares : (calls thread).SparesLive store thread (.store (.batchAtomic iovec)) state :=
          allowed
        rw [call] at spares
        obtain ⟨apart, fits⟩ := spares
        obtain ⟨kept, relied⟩ := invariant.batched
          (recorded state invariant.recorded asked fits)
          fun lba put awaits stored => by
            change (if BatchCovers store iovec lba then _ else state.pairs lba) = some put at stored
            rwa [if_neg fun covered => apart lba covered awaits] at stored
        exact ⟨kept, relied, trivial⟩
  exact Discipline.Outline.bind handed fun done =>
    Discipline.Outline.ite (fun _ => fun _ _ _ => trivial) fun _ => fun _ _ _ => trivial

/-- A put spares live pairs. -/
theorem spares_kvPut {poolId : UInt32} {pair : NvmKvIovec} {allocation : Allocation}
    (call : calls thread = .kvPut poolId pair allocation)
    (filled : VectorsFilled store.capabilities pair.key.length pair.value pair.valueLen) :
    (storeDiscipline store calls).Outline (storeAnswer store calls) thread
      (kvPut store poolId pair allocation) (fun _ => True) fun _ _ => True := by
  refine ignores_searching.outline_kvPut fun placed context valid => ?_
  obtain ⟨validKey, validValue⟩ := Bool.and_eq_true_iff.mp valid
  obtain ⟨_, bounded, _⟩ := of_decide_eq_true validValue
  have short : pair.key.length ≤ nvmKvMaxKeySize := (of_decide_eq_true validKey).2
  unfold kvPutWrite
  cases allocation.iovec with
  | none => exact fun _ _ _ => trivial
  | some memory =>
    dsimp only
    split
    · exact fun _ _ _ => trivial
    · rename_i trims trimmed
      refine Discipline.Outline.bind spares_kvProcessForWrite fun prepared => ?_
      refine Discipline.Outline.chosen fun clock => ?_
      refine Discipline.Outline.given fun same => ?_
      subst same
      dsimp only
      refine Discipline.Outline.bind (spares_put_nvmWritev call fun state recorded asked fits =>
        recorded_put call recorded short bounded trimmed filled asked fits) fun retCode => ?_
      cases retCode with
      | error code => exact fun _ _ _ => trivial
      | ok done =>
        refine Discipline.Outline.ite (fun _ => ?_) fun _ => fun _ _ _ => trivial
        have quiet : (storeDiscipline store calls).Ignores (storeAnswer store calls) thread
            StoreOp.Quiet fun _ => True :=
          ignores_quiet (fun _ _ _ _ _ _ => trivial) fun _ _ _ => trivial
        exact Discipline.Outline.bind (quiet.outline (Program.Calls.perform trivial))
          fun _ => fun _ _ _ => trivial

end Store

/-- A vector of the queue was there or is the one that was added. -/
theorem mem_updateExpiryQueue {capabilities : NvmKvStoreCapabilities}
    {queue : List (List NvmIovec)} {keyLoc : Nat} {hdr : NvmKvHeader} {block : List NvmIovec}
    {vector : NvmIovec} (member : block ∈ updateExpiryQueue capabilities queue keyLoc hdr)
    (inside : vector ∈ block) :
    (∃ old ∈ queue, vector ∈ old) ∨
      vector = expiryIovec capabilities.nvmSectorSize keyLoc hdr := by
  obtain ⟨full, last, among, fromQueue, fromLast⟩ : ∃ full last,
      (updateExpiryQueue capabilities queue keyLoc hdr = full ++ [last] ∨
        updateExpiryQueue capabilities queue keyLoc hdr =
          full ++ [last ++ [expiryIovec capabilities.nvmSectorSize keyLoc hdr]]) ∧
      (∀ old ∈ full, old ∈ queue) ∧ (last = [] ∨ last ∈ queue) := by
    unfold updateExpiryQueue
    cases ends : queue.getLast? with
    | none => refine ⟨queue, [], ?_, fun _ => id, .inl rfl⟩; dsimp only; split <;> simp
    | some last =>
      dsimp only
      by_cases whole : last.length = capabilities.nvmMaxNumIovs
      · refine ⟨queue, [], ?_, fun _ => id, .inl rfl⟩
        rw [if_pos whole]
        dsimp only
        split <;> simp
      · refine ⟨queue.dropLast, last, ?_, fun _ listed =>
          (List.dropLast_sublist queue).subset listed, .inr (List.mem_of_getLast? ends)⟩
        rw [if_neg whole]
        dsimp only
        split <;> simp
  have early : ∀ old, old ∈ full → vector ∈ old → (∃ old ∈ queue, vector ∈ old) ∨
      vector = expiryIovec capabilities.nvmSectorSize keyLoc hdr := fun old listed inside =>
    .inl ⟨old, fromQueue old listed, inside⟩
  have late : vector ∈ last → (∃ old ∈ queue, vector ∈ old) ∨
      vector = expiryIovec capabilities.nvmSectorSize keyLoc hdr := by
    intro inside
    rcases fromLast with rfl | listed
    · exact nomatch inside
    · exact .inl ⟨last, listed, inside⟩
  rcases among with same | same
  · rw [same] at member
    rcases List.mem_append.mp member with listed | here
    · exact early block listed inside
    · rw [List.mem_singleton.mp here] at inside
      exact late inside
  · rw [same] at member
    rcases List.mem_append.mp member with listed | here
    · exact early block listed inside
    · rw [List.mem_singleton.mp here] at inside
      rcases List.mem_append.mp inside with inside | added
      · exact late inside
      · exact .inr (List.mem_singleton.mp added)

section Calls

variable {ι : Type} {store : NvmKvStore}

/-- An expired pair that is still stored may be queued. -/
theorem ExpiryInvariant.queue {state : AsyncState ι} {keyLoc : Nat} {hdr : NvmKvHeader}
    (invariant : ExpiryInvariant store state) (still : StillStored store state keyLoc hdr)
    (some : hdr.expiry ≠ 0) (passed : hdr.expiry < state.store.clock) :
    ExpiryInvariant store
      { state with
        store :=
          { state.store with
            expiryQueue :=
              updateExpiryQueue store.capabilities state.store.expiryQueue keyLoc hdr } } where
  recorded := invariant.recorded
  popped := invariant.popped
  queued := by
    rintro block member lba put ⟨vector, inside, covers⟩ stored
    rcases mem_updateExpiryQueue member inside with ⟨old, listed, inside⟩ | rfl
    · exact invariant.queued old listed lba put ⟨vector, inside, covers⟩ stored
    · obtain ⟨here, starts⟩ := still.alone lba put covers stored
      obtain ⟨sector, mapped, expiry⟩ := invariant.recorded keyLoc put here starts
      have header : readHeader sector = hdr :=
        (storedHeader_sector mapped).symm.trans still.header
      rw [header] at expiry
      cases expires : put.expires with
      | none =>
        rw [expires] at expiry
        exact absurd expiry some
      | some time =>
        rw [expires] at expiry
        change hdr.expiry = time at expiry
        exact ⟨time, expires, expiry ▸ passed⟩

/-- A store that is opened has nothing queued. -/
theorem ExpiryInvariant.opened {state : AsyncState ι} (recorded : PairsRecorded state)
    (empty : state.store.expiryQueue = []) (idle : ∀ thread, state.popped thread = []) :
    ExpiryInvariant store state := by
  refine ⟨recorded, ?_, ?_⟩
  · rw [empty]
    exact fun block absent => nomatch absent
  · intro thread
    rw [idle thread]
    rintro lba put ⟨_, absent, _⟩
    exact nomatch absent

variable [DecidableEq ι] {calls : ι → AsyncCall} {thread : ι}

/-- Whether a call only reads. -/
def AsyncCall.Reads : AsyncCall → Prop
  | .kvGet _ _ _ _ _ _ | .kvExists _ _ _ => True
  | _ => False

/-- Reading calls do not matter to any time that has passed. -/
theorem ignores_reading {held : AsyncState ι → Prop}
    (stable : (storeDiscipline store calls).Stable thread held)
    (same : ∀ {before after : AsyncState ι}, held before →
      after.popped thread = before.popped thread → after.store.clock = before.store.clock →
      held after) {α : Type} {program : StoreM α} (reads : program.Calls StoreOp.Reads) :
    (storeDiscipline store calls).Outline (storeAnswer store calls) thread program held
      fun _ => held :=
  (ignores_quiet stable same).outline
  (reads.mono fun _ reads => StoreOp.Searches.quiet (.inl reads))

/-- The expiry check of a reading call. -/
theorem spares_kvExpire (call : (calls thread).Reads) (hdr : NvmKvHeader) (lba : Nat) :
    (storeDiscipline store calls).Outline (storeAnswer store calls) thread
      (kvExpire store hdr lba true) (fun _ => True) fun _ _ => True := by
  unfold kvExpire
  refine Discipline.Outline.ite (fun _ => fun _ _ _ => trivial) fun _ => ?_
  have asked : (storeDiscipline store calls).Outline (storeAnswer store calls) thread currentTime
      (fun _ => True) fun time state => time ≤ state.store.clock := by
    refine Discipline.Outline.perform (fun _ _ _ _ _ _ => trivial) ?_
    intro state invariant _
    obtain ⟨safe, answered⟩ := (ignores_quiet (fun _ _ _ _ _ _ => trivial)
      fun _ _ _ => trivial).kept (show StoreOp.Quiet .time from trivial) invariant trivial
    refine ⟨safe, fun time reached allowed reply => ?_⟩
    obtain ⟨kept, relied, _⟩ := answered allowed reply
    refine ⟨kept, relied, ?_⟩
    obtain ⟨after, made, rfl⟩ := storeAnswer_eq reply
    obtain ⟨rfl, rfl⟩ := Prod.mk.inj (Option.some.inj made)
    exact Nat.le_refl _
  refine Discipline.Outline.bind asked fun curTime => ?_
  refine Discipline.Outline.ite (fun expired => ?_) fun _ => fun _ _ _ => trivial
  refine Discipline.Outline.ite (fun impossible => Bool.noConfusion impossible) fun _ => ?_
  have queued : (storeDiscipline store calls).Outline (storeAnswer store calls) thread
      (askUpdateExpiryQueue lba hdr) (fun state => curTime ≤ state.store.clock)
      fun _ _ => True := by
    refine Discipline.Outline.perform ?_ ?_
    · exact fun _ _ _ _ relied early => early.trans relied.2.2
    · intro state invariant early
      refine ⟨?_, ?_⟩
      · change (calls thread).TrimsExpired store (.store (.updateExpiryQueue lba hdr)) state
        cases calls thread <;> trivial
      · intro answered reached allowed reply
        obtain ⟨after, made, rfl⟩ := storeAnswer_eq reply
        obtain ⟨_, rfl⟩ := Prod.mk.inj (Option.some.inj made)
        have still : StillStored store state lba hdr := by
          have spares : (calls thread).SparesLive store thread
            (.store (.updateExpiryQueue lba hdr)) state := allowed
          cases kind : calls thread <;> rw [kind] at call spares <;>
            first | exact spares | exact call.elim
        have passed : hdr.expiry < state.store.clock :=
          (expired.1.trans_le (Nat.mod_le _ _)).trans_le early
        exact ⟨invariant.queue still expired.2 passed, fun _ _ => ⟨rfl, rfl, Nat.le_refl _⟩,
          trivial⟩
  refine Discipline.Outline.bind queued fun result => ?_
  cases result <;> exact fun _ _ _ => trivial

/-- A call of `kv_get` keeps the discipline: it queues what it has found expired. -/
theorem spares_kvGet (call : (calls thread).Reads) {poolId : UInt32} {key : List UInt8}
    {value : Memory} {valueLen : Nat} {readExact : Bool} {buf : Option Region} :
    (storeDiscipline store calls).Outline (storeAnswer store calls) thread
      (kvGet store poolId key value valueLen readExact buf) (fun _ => True) fun _ _ => True := by
  have reads : ∀ {α : Type} {program : StoreM α}, program.Calls StoreOp.Reads →
      (storeDiscipline store calls).Outline (storeAnswer store calls) thread program
        (fun _ => True) fun _ _ => True :=
    ignores_reading (fun _ _ _ _ _ _ => trivial) fun _ _ _ => trivial
  refine Discipline.Outline.bind (reads (reads_kvValidatePoolId _)) fun known => ?_
  refine Discipline.Outline.ite (fun _ => fun _ _ _ => trivial) fun _ => ?_
  cases buf with
  | none => exact fun _ _ _ => trivial
  | some buf =>
    refine Discipline.Outline.bind (reads (reads_kvReadMedia _ _ _ _ _ _)) fun read => ?_
    cases read with
    | error code => exact fun _ _ _ => trivial
    | ok read =>
      refine Discipline.Outline.bind (spares_kvExpire call _ _) fun result => ?_
      cases result <;> exact fun _ _ _ => trivial

/-- Induction follows the addresses. -/
theorem spares_kvRangeExistProbes (call : (calls thread).Reads) {poolId : UInt32}
    {key : List UInt8} {lbas : List Nat} {buf : Region} :
    (storeDiscipline store calls).Outline (storeAnswer store calls) thread
      (kvRangeExistProbes store poolId key lbas buf) (fun _ => True) fun _ _ => True := by
  have reads : ∀ {α : Type} {program : StoreM α}, program.Calls StoreOp.Reads →
      (storeDiscipline store calls).Outline (storeAnswer store calls) thread program
        (fun _ => True) fun _ _ => True :=
    ignores_reading (fun _ _ _ _ _ _ => trivial) fun _ _ _ => trivial
  induction lbas generalizing buf with
  | nil => exact fun _ _ _ => trivial
  | cons lba rest inductionHypothesis =>
    unfold kvRangeExistProbes
    refine Discipline.Outline.bind (reads (reads_kvRangeExists _)) fun found => ?_
    split
    · exact inductionHypothesis
    · exact fun _ _ _ => trivial
    · refine Discipline.Outline.bind (reads (reads_nvmReadv _)) fun read => ?_
      refine Discipline.Outline.ite (fun _ => ?_) fun _ => inductionHypothesis
      refine Discipline.Outline.bind (spares_kvExpire call _ _) fun result => ?_
      cases result <;> exact fun _ _ _ => trivial

/-- So does one of `kv_exists`. -/
theorem spares_kvExists (call : (calls thread).Reads) {poolId : UInt32} {key : List UInt8}
    {buf : Option Region} :
    (storeDiscipline store calls).Outline (storeAnswer store calls) thread
      (kvExists store poolId key buf) (fun _ => True) fun _ _ => True := by
  refine Discipline.Outline.bind (ignores_reading (fun _ _ _ _ _ _ => trivial)
    (fun _ _ _ => trivial) (reads_kvValidatePoolId _)) fun known => ?_
  refine Discipline.Outline.ite (fun _ => fun _ _ _ => trivial) fun _ => ?_
  cases buf with
  | none => exact fun _ _ _ => trivial
  | some buf =>
    refine Discipline.Outline.bind (spares_kvRangeExistProbes call) fun read => ?_
    split <;> exact fun _ _ _ => trivial

/-- The batch of a worker trims its block, which has expired. Nothing is recorded for what a worker
hands over. -/
theorem spares_worker_nvmWritev {total : Nat} (call : calls thread = .startThread total)
    {block iovec : List NvmIovec} (among : ∀ vector ∈ iovec, vector ∈ block) :
    (storeDiscipline store calls).Outline (storeAnswer store calls) thread (nvmWritev iovec)
      (fun state => state.popped thread = block) fun _ _ => True := by
  have handed : (storeDiscipline store calls).Outline (storeAnswer store calls) thread
      (nvmBatchAtomicOperations iovec) (fun state => state.popped thread = block)
      fun _ _ => True := by
    refine Discipline.Outline.perform ?_ ?_
    · exact fun _ _ _ _ relied popped => relied.2.1.trans popped
    · intro state invariant popped
      refine ⟨?_, ?_⟩
      · change (calls thread).TrimsExpired store (.store (.batchAtomic iovec)) state
        rw [call]
        rintro lba put ⟨vector, member, covers⟩
        refine invariant.popped thread lba put ⟨vector, ?_, covers⟩
        rw [popped]
        exact among vector member
      · intro answered reached allowed reply
        obtain ⟨after, made, rfl⟩ := storeAnswer_eq reply
        obtain ⟨_, rfl⟩ := Prod.mk.inj (Option.some.inj made)
        have fewer : ∀ lba put, (state.batched store (calls thread) thread iovec).pairs lba =
            some put → ¬BatchCovers store iovec lba ∧ state.pairs lba = some put := by
          intro lba put stored
          change (if BatchCovers store iovec lba then _ else state.pairs lba) = some put at stored
          rw [call] at stored
          split_ifs at stored with covered mapped
          · exact nomatch stored
          · exact ⟨covered, stored⟩
        have recorded : PairsRecorded (state.batched store (calls thread) thread iovec) := by
          intro lba put stored here
          obtain ⟨uncovered, before⟩ := fewer lba put stored
          obtain ⟨sector, mapped, expiry⟩ := invariant.recorded lba put before here
          exact ⟨sector, (applyBatch_uncovered uncovered).trans mapped, expiry⟩
        obtain ⟨kept, relied⟩ := invariant.batched recorded fun lba put _ stored =>
          (fewer lba put stored).2
        exact ⟨kept, relied, trivial⟩
  exact Discipline.Outline.bind handed fun done =>
    Discipline.Outline.ite (fun _ => fun _ _ _ => trivial) fun _ => fun _ _ _ => trivial

/-- The deletion of a block that a worker has taken. -/
theorem spares_batchDeleteSync {total : Nat} (call : calls thread = .startThread total)
    {block iovec : List NvmIovec} (among : ∀ vector ∈ iovec, vector ∈ block) :
    (storeDiscipline store calls).Outline (storeAnswer store calls) thread
      (store.batchDeleteSync iovec true) (fun state => state.popped thread = block)
      fun _ _ => True := by
  have holding : (storeDiscipline store calls).Ignores (storeAnswer store calls) thread
      StoreOp.Quiet fun state => state.popped thread = block :=
    ignores_quiet (fun _ _ _ _ relied popped => relied.2.1.trans popped)
      fun popped same _ => same.trans popped
  have quiet : (storeDiscipline store calls).Ignores (storeAnswer store calls) thread
      StoreOp.Quiet fun _ => True :=
    ignores_quiet (fun _ _ _ _ _ _ => trivial) fun _ _ _ => trivial
  have searches : ∀ {lbas : List Nat}, (storeDiscipline store calls).Outline
      (storeAnswer store calls) thread (deleteLbas lbas) (fun _ => True) fun _ _ => True :=
    quiet.outline ((searches_deleteLbas _).mono fun _ => StoreOp.Searches.quiet)
  refine Discipline.Outline.bind (holding.outline ((searches_insertEntries _).mono fun _ =>
    StoreOp.Searches.quiet)) fun _ => ?_
  refine Discipline.Outline.bind (spares_worker_nvmWritev call among) fun retCode => ?_
  refine Discipline.Outline.ite (fun _ => ?_) fun _ => ?_
  · refine Discipline.Outline.bind (quiet.outline (Program.Calls.perform trivial)) fun _ => ?_
    exact Discipline.Outline.bind searches fun _ => fun _ _ _ => trivial
  · exact Discipline.Outline.bind searches fun _ => fun _ _ _ => trivial

/-- A worker trims expired pairs only. Induction is on its rounds. -/
theorem spares_startThread {total : Nat} (call : calls thread = .startThread total)
    (rounds : Nat) :
    (expiryDiscipline store calls).Outline (answerAsync store calls) thread
      (startThread store rounds) (fun _ => True) fun _ _ => True := by
  induction rounds with
  | zero => exact fun _ _ _ => trivial
  | succ rounds inductionHypothesis =>
    have taken : (expiryDiscipline store calls).Outline (answerAsync store calls) thread
        (askAsync .popBlock) (fun _ => True) fun block state => state.popped thread = block := by
      refine Discipline.Outline.perform (fun _ _ _ _ _ _ => trivial) ?_
      intro state invariant _
      refine ⟨?_, ?_⟩
      · change (calls thread).TrimsExpired store .popBlock state
        rw [call]
        trivial
      · intro block reached allowed reply
        rw [answerAsync] at reply
        cases queue : state.store.expiryQueue with
        | nil =>
          rw [queue] at reply
          exact nomatch reply
        | cons front rest =>
          rw [queue] at reply
          dsimp only at reply
          split_ifs at reply
          obtain ⟨rfl, rfl⟩ := Prod.mk.inj (Option.some.inj reply)
          have first : SectorsExpired store state front := by
            refine invariant.queued front ?_
            rw [queue]
            exact List.mem_cons_self
          refine ⟨⟨invariant.recorded, ?_, ?_⟩, ?_, Function.update_self _ _ _⟩
          · intro block member
            refine invariant.queued block ?_
            rw [queue]
            exact List.mem_cons_of_mem _ member
          · intro other
            dsimp only
            by_cases own : other = thread
            · subst own
              rw [Function.update_self]
              exact first
            · rw [Function.update_of_ne own]
              exact invariant.popped other
          · exact fun other apart => ⟨rfl, Function.update_of_ne apart _ _, Nat.le_refl _⟩
    refine Discipline.Outline.bind taken fun block => ?_
    refine Discipline.Outline.bind (Discipline.Outline.lift (spares_batchDeleteSync call
      fun vector member => List.mem_of_mem_take member)) fun _ => inductionHypothesis

/-- Time passes. -/
theorem spares_passTimes {total : List Nat} (call : calls thread = .passTimes total)
    (seconds : List Nat) :
    (expiryDiscipline store calls).Outline (answerAsync store calls) thread (passTimes seconds)
      (fun _ => True) fun _ _ => True := by
  induction seconds with
  | nil => exact fun _ _ _ => trivial
  | cons more rest inductionHypothesis =>
    have passed : (expiryDiscipline store calls).Outline (answerAsync store calls) thread
        (askAsync (.passTime more)) (fun _ => True) fun _ _ => True := by
      refine Discipline.Outline.perform (fun _ _ _ _ _ _ => trivial) ?_
      intro state invariant _
      refine ⟨?_, ?_⟩
      · change (calls thread).TrimsExpired store (.passTime more) state
        rw [call]
        trivial
      · intro answered reached allowed reply
        obtain ⟨_, rfl⟩ := Prod.mk.inj (Option.some.inj reply)
        refine ⟨⟨invariant.recorded, ?_, ?_⟩, ?_, trivial⟩
        · exact fun block member => (invariant.queued block member).later (fun _ _ _ => id)
            (Nat.le_add_right _ _)
        · exact fun other => (invariant.popped other).later (fun _ _ _ => id)
            (Nat.le_add_right _ _)
        · exact fun _ _ => ⟨rfl, rfl, Nat.le_add_right _ _⟩
    exact Discipline.Outline.bind passed fun _ => inductionHypothesis

/-- Every call spares live pairs. -/
theorem spares_call (filled : (calls thread).VectorsFilled store) :
    (expiryDiscipline store calls).Outline (answerAsync store calls) thread
      ((calls thread).program store) (fun _ => True) fun _ _ => True := by
  cases call : calls thread with
  | kvGet poolId key value valueLen readExact buf =>
    have reads : (calls thread).Reads := by rw [call]; trivial
    exact Discipline.Outline.bind (Discipline.Outline.lift (spares_kvGet reads)) fun _ =>
      fun _ _ _ => trivial
  | kvExists poolId key buf =>
    have reads : (calls thread).Reads := by rw [call]; trivial
    exact Discipline.Outline.bind (Discipline.Outline.lift (spares_kvExists reads)) fun _ =>
      fun _ _ _ => trivial
  | kvPut poolId pair allocation =>
    rw [call] at filled
    exact Discipline.Outline.bind (Discipline.Outline.lift (spares_kvPut call filled)) fun _ =>
      fun _ _ _ => trivial
  | startThread rounds => exact spares_startThread call rounds
  | passTimes seconds => exact spares_passTimes call seconds

/-- In every run whose steps spare what is queued, a worker about to trim a block covers
no put that has not expired. The run may start from a store just opened, or from any
state in which queued pairs have expired. -/
theorem expiry_spares_live (store : NvmKvStore) (calls : ι → AsyncCall)
    (filled : ∀ thread, (calls thread).VectorsFilled store) {state : AsyncState ι}
    (initial : ExpiryInvariant store state) {config : AsyncConfig ι}
    (reached : Config.Reachable (answerAsync store calls)
      (fun thread op state => (calls thread).SparesLive store thread op state)
      (startAsync store state calls) config) {worker : ι} {rounds : Nat}
    (works : calls worker = .startThread rounds) {iovec : List NvmIovec}
    {next : Bool → AsyncM Unit}
    (pending : config.threads worker = .call (.store (.batchAtomic iovec)) next) :
    SectorsExpired store config.shared iovec := by
  have checked := @Discipline.sound_checked _ _ _ _ _ (expiryDiscipline store calls) _ _
    (fun _ _ _ => True) (startAsync store state calls) _ initial
    (fun thread => ⟨fun _ => True, trivial, spares_call (filled thread)⟩)
    (fun _ _ _ _ _ _ _ _ => trivial) reached worker _ _ pending
  change (calls worker).TrimsExpired store (.store (.batchAtomic iovec)) config.shared at checked
  rw [works] at checked
  exact checked

end Calls

section Runs

variable {ι : Type} [DecidableEq ι] {store : NvmKvStore} {calls : ι → AsyncCall} {thread : ι}

/-- What a call that was alone leaves in the records: nothing without a batch, and what
it writes with one. -/
structure Recorded (store : NvmKvStore) (calls : ι → AsyncCall) (thread : ι)
    (before reached : AsyncState ι) (batches : List (List NvmIovec)) : Prop where
  log : reached.store.log = before.store.log ++ batches.map (thread, ·)
  none : batches = [] → reached.pairs = before.pairs ∧ reached.store.media = before.store.media
  one : ∀ iovec, batches = [iovec] → ∃ asked, ∀ lba, BatchCovers store iovec lba →
    (reached.store.media lba).isSome →
      reached.pairs lba = (calls thread).writes store asked iovec

/-- A program of the store that runs to its end does so with the records. -/
theorem run_onStore {α : Type} {program : StoreM α} {state : AsyncState ι}
    {after : StoreState ι} {result : α}
    (ran : program.run (answer store thread) state.store = some (result, after)) :
    ∃ reached batches,
      (onStore program).run (answerAsync store calls thread) state = some (result, reached) ∧
      reached.store = after ∧ Recorded store calls thread state reached batches := by
  induction program generalizing state with
  | done returned =>
    obtain ⟨rfl, rfl⟩ := Prod.mk.inj (Option.some.inj ran)
    refine ⟨state, [], rfl, rfl, (List.append_nil _).symm, fun _ => ⟨rfl, rfl⟩, ?_⟩
    intro iovec single
    cases single
  | call op next inductionHypothesis =>
    rw [Program.run_call] at ran
    obtain ⟨⟨answered, middle⟩, made, further⟩ := Option.bind_eq_some_iff.mp ran
    have noted : (state.noted store (calls thread) thread op middle).store = middle := by
      cases op <;> rfl
    rw [← noted] at further
    obtain ⟨reached, batches, later, same, recorded⟩ := inductionHypothesis answered further
    have steps : (onStore (.call op next)).run (answerAsync store calls thread) state =
        some (result, reached) := by
      rw [onStore, Program.lift, Program.run_call, answerAsync, made]
      exact later
    by_cases batch : ∃ iovec, op = .batchAtomic iovec
    · obtain ⟨iovec, rfl⟩ := batch
      obtain ⟨_, rfl⟩ := Prod.mk.inj (Option.some.inj made)
      refine ⟨reached, iovec :: batches, steps, same, ?_, fun none =>
        absurd none (List.cons_ne_nil _ _), ?_⟩
      · rw [recorded.log, noted, List.map_cons, List.append_assoc]
        rfl
      · intro only single
        obtain ⟨rfl, none⟩ := List.cons.inj single
        obtain ⟨pairs, media⟩ := recorded.none none
        refine ⟨state.asked thread, fun lba covered mapped => ?_⟩
        rw [media] at mapped
        rw [pairs]
        change (if BatchCovers store iovec lba then _ else state.pairs lba) = _
        rw [if_pos covered]
        exact if_pos mapped
    · have quiet : (state.noted store (calls thread) thread op middle).pairs = state.pairs ∧
          middle.media = state.store.media ∧ middle.log = state.store.log := by
        cases op with
        | batchAtomic iovec => exact absurd ⟨iovec, rfl⟩ batch
        | checkEntry lba =>
          rw [answer] at made
          split_ifs at made <;> obtain ⟨_, rfl⟩ := Prod.mk.inj (Option.some.inj made) <;>
            exact ⟨rfl, rfl, rfl⟩
        | awaitEntry lba =>
          rw [answer] at made
          split_ifs at made
          obtain ⟨_, rfl⟩ := Prod.mk.inj (Option.some.inj made)
          exact ⟨rfl, rfl, rfl⟩
        | never => cases made
        | _ =>
          obtain ⟨_, rfl⟩ := Prod.mk.inj (Option.some.inj made)
          exact ⟨rfl, rfl, rfl⟩
      obtain ⟨pairs, media, log⟩ := quiet
      refine ⟨reached, batches, steps, same, ?_, ?_, recorded.one⟩
      · rw [recorded.log, noted, log]
      · intro empty
        rw [(recorded.none empty).1, (recorded.none empty).2, pairs, noted, media]
        exact ⟨rfl, rfl⟩

end Runs

/-- A store in which pairs have their own expiry times, on a device that takes two vectors
in a batch. -/
def expiringTerabyte : NvmKvStore :=
  { NvmKvStore.terabyteStore with
    capabilities :=
      { NvmKvStore.terabyteStore.capabilities with
        nvmMaxNumIovs := 2
        iovsPositive := by decide }
    expiryMode := .arbitraryExpiry }

/-- The first address of a key of one byte in the default pool. -/
def letterLba (letter : UInt8) : Nat := expiringTerabyte.probeLba 0 [letter] 0

/-- The header of a pair with a value of one byte that expired at time one. -/
def expiredHeader (letter : UInt8) : Region := writeHeader (fun _ => 0) 0 [letter] 1 41 0 1

/-- A device with two expired pairs, of the keys `a` and `b`. -/
def expiredMedia : Media := fun lba =>
  if lba = letterLba 97 then some (expiredHeader 97)
  else if lba = letterLba 98 then some (expiredHeader 98)
  else none

/-- The store on this device at time ten. -/
def expiredPairs : AsyncState (Fin 4) where
  store := .opened expiredMedia (fun _ => false) 10
  asked := fun _ => 0
  pairs := fun _ => none
  popped := fun _ => []

/-- Both keys are looked up, the first one is put again without an expiry time, and a
worker does one round. -/
def lookUpAndPut : Fin 4 → AsyncCall
  | 0 => .kvExists 0 [97] (some fun _ => 0)
  | 1 => .kvExists 0 [98] (some fun _ => 0)
  | 2 => .kvPut 0 ⟨[97], ⟨0, fun _ => 1⟩, 1, 0, 0, true⟩
      ⟨⟨fun _ => 0, true⟩, some fun _ => ⟨poolBuffer fun _ => 0, 0, 0, .trim⟩⟩
  | 3 => .startThread 1

/-- The two keys have different addresses. -/
theorem letterLba_apart : letterLba 97 ≠ letterLba 98 := by decide

variable {media : Media} {letter : UInt8}

/-- An expired pair is found at its first address. -/
theorem expired_holds (sector : media (letterLba letter) = some (expiredHeader letter)) :
    holds expiringTerabyte media 0 [letter] (letterLba letter) = true := by
  have short : [letter].length ≤ nvmKvMaxKeySize := by
    rw [List.length_singleton]
    decide
  rw [holds_sector short sector, expiredHeader, headerMatches_writeHeader _ _ _ _ _ _ _ _ _ short]
  exact decide_eq_true ⟨rfl, rfl⟩

/-- Where the header of a letter is at its address, the lookup of the letter ends there. -/
theorem expired_lookup (sector : media (letterLba letter) = some (expiredHeader letter)) :
    lookupLba expiringTerabyte media 0 [letter] = some (letterLba letter) := by
  obtain ⟨later, addresses⟩ : ∃ later, expiringTerabyte.probes 0 [letter] =
    letterLba letter :: later := ⟨_, rfl⟩
  rw [lookupLba, addresses, List.find?_cons_of_pos (expired_holds sector)]

/-- Looking up an expired pair queues its sector. -/
theorem expired_afterLookup {state : StoreState (Fin 4)}
    (sector : state.media (letterLba letter) = some (expiredHeader letter))
    (clock : state.clock = 10) :
    afterLookup expiringTerabyte state 0 [letter] =
      state.queue expiringTerabyte (letterLba letter) (readHeader (expiredHeader letter)) := by
  have expiry : (readHeader (expiredHeader letter)).expiry = 1 := by
    rw [expiredHeader, readHeader_writeHeader]
    rfl
  have expired : pairExpired expiringTerabyte state.clock
      (storedHeader expiringTerabyte state.media (letterLba letter)) = true := by
    rw [storedHeader_sector sector, pairExpired, expiry, clock]
    rfl
  rw [afterLookup, expired_lookup sector]
  simp only [expired, if_true]
  rw [storedHeader_sector sector]

/-- The put goes to the sector of the expired pair of its key. -/
theorem expired_target {state : StoreState (Fin 4)}
    (sector : state.media (letterLba 97) = some (expiredHeader 97)) (clock : state.clock = 10) :
    putTarget expiringTerabyte state 0 ⟨[97], ⟨0, fun _ => 1⟩, 1, 0, 0, true⟩ =
      some (letterLba 97, 0) := by
  have mapped : windowFree expiringTerabyte state.media (letterLba 97) = false := by
    rw [Bool.eq_false_iff]
    intro free
    have first := windowFree_iff.mp free 0 (Nat.two_pow_pos _)
    rw [Nat.add_zero, sector] at first
    exact nomatch first
  have expiry : (readHeader (expiredHeader 97)).expiry = 1 := by
    rw [expiredHeader, readHeader_writeHeader]
    rfl
  have expired : pairExpired expiringTerabyte state.clock
      (storedHeader expiringTerabyte state.media (letterLba 97)) = true := by
    rw [storedHeader_sector sector, pairExpired, expiry, clock]
    rfl
  obtain ⟨later, addresses⟩ : ∃ later, expiringTerabyte.probes 0 [97] =
    letterLba 97 :: later := ⟨_, rfl⟩
  have missed : (cacheAnswer expiringTerabyte state 0 [97]).1 = false := rfl
  simp only [putTarget, missed, Bool.false_eq_true, if_false, putPlace, addresses, place, mapped,
    expired_holds sector, if_true, expired, Place.target]

/-- The first pair is there. -/
theorem expired_first : expiredMedia (letterLba 97) = some (expiredHeader 97) := by
  simp only [expiredMedia, if_true]

/-- So is the second one. -/
theorem expired_second : expiredMedia (letterLba 98) = some (expiredHeader 98) := by
  simp only [expiredMedia, letterLba_apart.symm, if_false, if_true]

/-- The vector that is queued for an expired pair. -/
def expiredIovec (letter : UInt8) : NvmIovec :=
  expiryIovec expiringTerabyte.sectorSize (letterLba letter) (readHeader (expiredHeader letter))

/-- The state after both lookups: one full block is queued. -/
theorem expired_queue :
    updateExpiryQueue expiringTerabyte.capabilities
      (updateExpiryQueue expiringTerabyte.capabilities [] (letterLba 97)
        (readHeader (expiredHeader 97))) (letterLba 98) (readHeader (expiredHeader 98)) =
      [[expiredIovec 97, expiredIovec 98]] := rfl

/-- A free address that is checked is inserted. -/
theorem answerAsync_checkEntry {ι : Type} [DecidableEq ι] {store : NvmKvStore}
    {calls : ι → AsyncCall} {thread : ι} {state : AsyncState ι} {lba : Nat}
    (free : state.store.safeLbaList lba = none) :
    answerAsync store calls thread (.store (.checkEntry lba)) state =
      some (true, { state with store := state.store.hold thread lba }) := by
  rw [answerAsync, answer, free]
  rfl

/-- The put of the pair that is stored without an expiry time. -/
def pairAgain : NvmKvIovec := ⟨[97], ⟨0, fun _ => 1⟩, 1, 0, 0, true⟩

/-- The run of the two lookups, of the put and of the worker reaches these threads. -/
def LooksUpAndPuts (state : AsyncState (Fin 4)) (threads : Fin 4 → AsyncM Unit) : Prop :=
  Config.Reachable (answerAsync expiringTerabyte lookUpAndPut) (fun _ _ _ => True)
    (startAsync expiringTerabyte expiredPairs lookUpAndPut) ⟨state, threads⟩

/-- The store after both lookups. -/
def bothQueued : StoreState (Fin 4) :=
  (expiredPairs.store.queue expiringTerabyte (letterLba 97) (readHeader (expiredHeader 97))).queue
    expiringTerabyte (letterLba 98) (readHeader (expiredHeader 98))

/-- The two lookups are run to their ends and queue their pairs. -/
theorem lookups_queue : ∃ state threads, LooksUpAndPuts state threads ∧
    state.store = bothQueued ∧ threads 2 = (lookUpAndPut 2).program expiringTerabyte ∧
      threads 3 = (lookUpAndPut 3).program expiringTerabyte := by
  have begun : LooksUpAndPuts expiredPairs fun thread =>
      (lookUpAndPut thread).program expiringTerabyte := .start
  have asked := run_kvExists expiringTerabyte (0 : Fin 4) expiredPairs.store
    (fun _ => 0) (show keyAccepted expiredPairs.store 0 [97] = true by decide)
  rw [expired_afterLookup expired_first rfl] at asked
  obtain ⟨one, _, ranOne, storeOne, _⟩ := @run_onStore _ _ _ lookUpAndPut _ _ _
    expiredPairs _ _ asked
  have lookedUp := begun.moves 0 rfl (.seq ranOne (.still _ _))
  have askedAgain := run_kvExists expiringTerabyte (1 : Fin 4) one.store (fun _ => 0)
    (by rw [storeOne]; decide : keyAccepted one.store 0 [98] = true)
  rw [expired_afterLookup (by rw [storeOne]; exact expired_second) (by rw [storeOne]; rfl),
    storeOne] at askedAgain
  obtain ⟨two, _, ranTwo, storeTwo, _⟩ := @run_onStore _ _ _ lookUpAndPut _ _ _ one _ _
    (by rw [storeOne]; exact askedAgain)
  have queued := lookedUp.moves 1 (Function.update_of_ne (by decide) _ _)
    (.seq ranTwo (.still _ _))
  exact ⟨two, _, queued, storeTwo,
    (Function.update_of_ne (by decide) _ _).trans (Function.update_of_ne (by decide) _ _),
    (Function.update_of_ne (by decide) _ _).trans (Function.update_of_ne (by decide) _ _)⟩

/-- The batch that the put hands over: the sector of the pair is written. -/
def againIovec (buf : Region) (clock : Nat) : List NvmIovec :=
  handedIovec (fun _ => ⟨poolBuffer fun _ => 0, 0, 0, .trim⟩)
    ([] ++ putIovec expiringTerabyte 0 pairAgain
      (writeLayout expiringTerabyte.capabilities 1 ⟨0, fun _ => 1⟩ 1) buf clock (letterLba 97))
    (writeLayout expiringTerabyte.capabilities 1 ⟨0, fun _ => 1⟩ 1).iovCount

/-- The batch has one vector, which writes the sector. -/
theorem againIovec_writes (buf : Region) (clock : Nat) : ∃ vector,
    againIovec buf clock = [vector] ∧ vector.iovOpcode = .write ∧
      BatchCovers expiringTerabyte [vector] (letterLba 97) := by
  obtain ⟨vector, rest, split, _, write, covers⟩ := pairIovec_first expiringTerabyte.capabilities
    (writeLayout expiringTerabyte.capabilities 1 ⟨0, fun _ => 1⟩ 1)
    (putHeader expiringTerabyte 0 pairAgain
      (writeLayout expiringTerabyte.capabilities 1 ⟨0, fun _ => 1⟩ 1) buf clock)
    ⟨0, fun _ => 1⟩ 1 (letterLba 97)
  refine ⟨vector, ?_, write, vector, List.mem_singleton_self _, covers⟩
  rw [againIovec, List.nil_append, putIovec]
  change handedIovec _ (pairIovec _ _ _ ⟨0, fun _ => 1⟩ 1 _) _ = _
  rw [split]
  rfl

/-- A call that has added one batch to the log has handed over that one alone. -/
theorem Recorded.only {ι : Type} {store : NvmKvStore} {calls : ι → AsyncCall} {thread : ι}
    [DecidableEq ι] {before reached : AsyncState ι} {batches : List (List NvmIovec)}
    {iovec : List NvmIovec} (recorded : Recorded store calls thread before reached batches)
    (log : reached.store.log = before.store.log ++ [(thread, iovec)]) : batches = [iovec] := by
  have same := List.append_cancel_left (recorded.log.symm.trans log)
  cases batches with
  | nil => cases same
  | cons only more =>
    cases more with
    | nil => exact congrArg (fun iovec => [iovec]) (Prod.mk.inj (List.cons.inj same).1).2
    | cons second further => cases (List.cons.inj same).2

/-- The put after the lookups writes the sector whose trim is queued, and the record of it says
that its pair never expires. -/
theorem sector_put_again : ∃ state threads, LooksUpAndPuts state threads ∧
    threads 3 = (lookUpAndPut 3).program expiringTerabyte ∧
      state.store.expiryQueue = [[expiredIovec 97, expiredIovec 98]] ∧
        (∀ lba, state.store.safeLbaList lba = none) ∧
          ∃ put, state.pairs (letterLba 97) = some put ∧ put.expires = none := by
  obtain ⟨two, threads, queued, stateTwo, putWaits, workerWaits⟩ := lookups_queue
  obtain ⟨result, after, put, effect⟩ := run_kvPut expiringTerabyte (2 : Fin 4) two.store
    (by rw [stateTwo]; exact fun _ => rfl) 0 pairAgain
    ⟨⟨fun _ => 0, true⟩, some fun _ => ⟨poolBuffer fun _ => 0, 0, 0, .trim⟩⟩
  obtain ⟨rfl, buf, rfl⟩ := effect.of_written (by rw [stateTwo]; decide) rfl rfl
    (expired_target (by rw [stateTwo]; exact expired_first) (by rw [stateTwo]; rfl)) rfl rfl
  obtain ⟨three, batches, ranThree, storeThree, recorded⟩ := @run_onStore _ _ _ lookUpAndPut _ _ _
    two _ _ put
  have written := queued.moves 2 putWaits (.seq ranThree (.still _ _))
  obtain ⟨vector, batch, write, covered⟩ := againIovec_writes buf two.store.clock
  have batches : batches = [againIovec buf two.store.clock] := recorded.only (by
    rw [storeThree]
    rfl)
  obtain ⟨asked, pairs⟩ := recorded.one _ (batches.trans (congrArg (fun iovec => [iovec]) batch))
  refine ⟨three, _, written, (Function.update_of_ne (by decide) _ _).trans workerWaits, ?_, ?_,
    ⟨vector.iovLba, none⟩, (pairs (letterLba 97) covered ?_).trans ?_, rfl⟩
  · rw [storeThree]
    change two.store.expiryQueue = _
    rw [stateTwo]
    exact expired_queue
  · intro lba
    rw [storeThree]
    change two.store.safeLbaList lba = none
    rw [stateTwo]
    rfl
  · obtain ⟨other, only, _, content⟩ := @Media.applyBatch_covered _ _ _ two.store.media covered
    have media : three.store.media (letterLba 97) =
        Media.applyBatch two.store.media expiringTerabyte.sectorSize [vector] (letterLba 97) := by
      rw [storeThree, ← batch]
      rfl
    rw [media, content, Media.vectorContent, List.mem_singleton.mp only, write]
    rfl
  · change ([vector].find? fun vector => vector.iovOpcode = .write).map _ = _
    simp only [List.find?_cons, write, decide_true]
    rfl

/-- The pair is put while its sector is queued, and the worker is about to trim it. Both lookups
have queued their pairs before, and the record of the put says that its pair never expires. -/
theorem queued_sector_reused :
    ¬∀ (store : NvmKvStore) (calls : Fin 4 → AsyncCall) (state : AsyncState (Fin 4))
      (config : AsyncConfig (Fin 4)), PairsRecorded state → state.store.expiryQueue = [] →
      (∀ thread, state.popped thread = []) →
      Config.Reachable (answerAsync store calls) (fun _ _ _ => True)
        (startAsync store state calls) config →
      ∀ worker rounds iovec next, calls worker = .startThread rounds →
        config.threads worker = .call (.store (.batchAtomic iovec)) next →
        SectorsExpired store config.shared iovec := by
  intro spares
  obtain ⟨three, threads, written, workerWaits, queue, free, put, stored, never⟩ :=
    sector_put_again
  have taken := written.advance 3 [expiredIovec 97, expiredIovec 98] _ workerWaits trivial (by
    rw [answerAsync, queue]
    rfl)
  have locked := taken.advance 3 true _ (Function.update_self _ _ _) trivial
    (answerAsync_checkEntry (by exact free (letterLba 97)))
  have apart : Function.update three.store.safeLbaList (letterLba 97) (some 3) (letterLba 98) =
      none := (Function.update_of_ne letterLba_apart.symm _ _).trans (free _)
  have lockedBoth := locked.advance 3 true _ (Function.update_self _ _ _) trivial
    (answerAsync_checkEntry (by exact apart))
  have unrecorded : PairsRecorded expiredPairs := by
    intro lba put recorded
    cases recorded
  have expired := spares _ _ _ _ unrecorded rfl (fun _ => rfl) lockedBoth 3 1
    [expiredIovec 97, expiredIovec 98] _ rfl rfl
  have here : BatchCovers expiringTerabyte [expiredIovec 97, expiredIovec 98] (letterLba 97) :=
    ⟨expiredIovec 97, List.mem_cons_self, by decide⟩
  obtain ⟨time, expires, _⟩ := expired (letterLba 97) put here stored
  rw [never] at expires
  cases expires

/-- The two pairs are queued, and recorded as what they are. -/
def queuedPairs : AsyncState Unit where
  store := { StoreState.opened expiredMedia (fun _ => false) 10 with
    expiryQueue := [[expiredIovec 97, expiredIovec 98]] }
  asked := fun _ => 0
  pairs := fun lba => if lba = letterLba 97 then some ⟨lba, some 1⟩ else none
  popped := fun _ => []

/-- A worker takes the block of the two pairs and their addresses. It may trim them. -/
theorem expiry_spares_live_two : ∃ config : AsyncConfig Unit,
    config.shared.pairs (letterLba 97) = some ⟨letterLba 97, some 1⟩ ∧
      SectorsExpired expiringTerabyte config.shared [expiredIovec 97, expiredIovec 98] := by
  have recorded : ∀ lba put, queuedPairs.pairs lba = some put →
      lba = letterLba 97 ∧ put = ⟨lba, some 1⟩ := by
    intro lba put stored
    change (if lba = letterLba 97 then some (StoredPut.mk lba (some 1)) else none) = some put
      at stored
    split_ifs at stored with here
    exact ⟨here, (Option.some.inj stored).symm⟩
  have initial : ExpiryInvariant expiringTerabyte queuedPairs := by
    refine ⟨?_, ?_, ?_⟩
    · intro lba put stored _
      obtain ⟨rfl, rfl⟩ := recorded lba put stored
      refine ⟨_, expired_first, ?_⟩
      rw [expiredHeader, readHeader_writeHeader]
      rfl
    · intro block _ lba put _ stored
      obtain ⟨_, rfl⟩ := recorded lba put stored
      exact ⟨1, rfl, show 1 < 10 by decide⟩
    · intro thread lba put covered
      obtain ⟨_, absent, _⟩ := covered
      exact nomatch absent
  have begun : Config.Reachable (answerAsync expiringTerabyte fun _ => .startThread 1)
      (fun thread op state => AsyncCall.SparesLive expiringTerabyte thread op state
        (.startThread 1))
      (startAsync expiringTerabyte queuedPairs fun _ => .startThread 1)
      (startAsync expiringTerabyte queuedPairs fun _ => .startThread 1) := .start
  have taken := begun.advance () [expiredIovec 97, expiredIovec 98] _ rfl trivial rfl
  have locked := taken.advance () true _ rfl trivial rfl
  have apart : Function.update (fun _ => none) (letterLba 97) (some ()) (letterLba 98) = none :=
    Function.update_of_ne letterLba_apart.symm _ _
  have lockedBoth := locked.advance () true _ rfl trivial (answerAsync_checkEntry
    (by exact apart))
  refine ⟨_, ?_, @expiry_spares_live Unit _ expiringTerabyte (fun _ => .startThread 1)
    (fun _ => trivial) _ initial _ lockedBoth () 1 rfl _ _ rfl⟩
  change queuedPairs.pairs (letterLba 97) = _
  simp only [queuedPairs, if_true]

end Nvmkv
