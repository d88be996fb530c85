import Mathlib.Logic.Relation
import Nvmkv.ForgedPairs
import Nvmkv.IterationExact

/-!
# Puts and deletes that are run one at a time

A call comes to its end before the next one begins. Between two calls time passes, and
pools come and go. A put that is written hands one batch to the device: the trim vector of
a longer value that it replaces, and the vectors of its pair. A delete trims a run of
sectors. Everything else leaves the media.

What a key holds is read from single sectors. A put therefore adds to what is held at most
its own header, and the sectors of its value where these read as headers of other keys.
-/

namespace Nvmkv

variable {ι : Type}

/-- A call that is run to its end, or what happens between two calls. -/
inductive SequentialCall where
  | kvPut (poolId : UInt32) (pair : NvmKvIovec) (allocation : Allocation)
  | kvDelete (poolId : UInt32) (key : List UInt8) (buf : Option Region) (allocated : Bool)
  | between (clock : Nat) (inUse deleted : Nat → Bool)

/-- The state in which a call ends. -/
def SequentialCall.run (store : NvmKvStore) (thread : ι) :
    SequentialCall → StoreState ι → Option (StoreState ι)
  | .kvPut poolId pair allocation, state =>
      ((Nvmkv.kvPut store poolId pair allocation).run (answer store thread) state).map Prod.snd
  | .kvDelete poolId key buf allocated, state =>
      ((Nvmkv.kvDelete store poolId key buf allocated).run (answer store thread) state).map Prod.snd
  | .between clock inUse deleted, state =>
      some { state with clock := clock, inUse := inUse, deleted := deleted }

/-- A call that meets a condition is run. -/
def SequentialStep (store : NvmKvStore) (thread : ι)
    (condition : SequentialCall → StoreState ι → Prop) (before after : StoreState ι) : Prop :=
  ∃ call, condition call before ∧ call.run store thread before = some after

/-- A run of calls that all meet a condition. -/
abbrev SequentialRun (store : NvmKvStore) (thread : ι)
    (condition : SequentialCall → StoreState ι → Prop) : StoreState ι → StoreState ι → Prop :=
  Relation.ReflTransGen (SequentialStep store thread condition)

/-- No address is locked, as between two calls. -/
def Idle (state : StoreState ι) : Prop := ∀ lba, state.safeLbaList lba = none

/-- What a put hands over, when everything that it needs is there. -/
structure PutWritten (store : NvmKvStore) (thread : ι) (poolId : UInt32) (pair : NvmKvIovec)
    (allocation : Allocation) (state after : StoreState ι) (lba trimLen : Nat)
    (memory : Nat → NvmIovec) (trims : List NvmIovec) (buf : Region) : Prop where
  ready : PutReady store state poolId pair allocation memory trims lba trimLen
  reached : after = state.afterPut store thread poolId pair (handedIovec memory
    (trims ++ putIovec store poolId pair (pair.layout store) buf state.clock lba)
    (pair.layout store).iovCount) lba

section Calls

variable {store : NvmKvStore} {thread : ι} {poolId : UInt32} {pair : NvmKvIovec}
  {allocation : Allocation} {state after : StoreState ι}

/-- A put without a cache fails and leaves the state, or it is written. -/
theorem sequential_put (noCache : store.cacheSize = 0) (idle : Idle state)
    {result : Except NvmErrorCode Nat}
    (ran : (kvPut store poolId pair allocation).run (answer store thread) state =
      some (result, after)) :
    (∃ code, result = .error code) ∧ after = state ∨
      result = .ok pair.valueLen ∧ ∃ lba trimLen memory trims buf,
        PutWritten store thread poolId pair allocation state after lba trimLen memory trims
          buf := by
  obtain ⟨ended, reached, returned, effect⟩ :=
    run_kvPut store thread state idle poolId pair allocation
  rw [ran, Option.some.injEq, Prod.mk.injEq] at returned
  obtain ⟨rfl, rfl⟩ := returned
  have missed : cacheAnswer store state poolId pair.key = (false, .zero) := if_neg (by omega)
  cases effect with
  | invalid _ => exact Or.inl ⟨⟨_, rfl⟩, rfl⟩
  | remembered _ _ => exact Or.inl ⟨⟨_, rfl⟩, rfl⟩
  | leaked code _ found _ =>
    rw [missed] at found
    cases found
  | unallocated code _ _ _ => exact Or.inl ⟨⟨_, rfl⟩, rfl⟩
  | refused lba _ _ _ => exact Or.inl ⟨⟨_, rfl⟩, rfl⟩
  | full _ _ _ => exact Or.inl ⟨⟨_, rfl⟩, rfl⟩
  | outOfMemory lba trimLen _ _ _ => exact Or.inl ⟨⟨_, rfl⟩, rfl⟩
  | untrimmable code lba trimLen _ _ _ => exact Or.inl ⟨⟨_, rfl⟩, rfl⟩
  | written layout unused buf memory trims lba trimLen accepted allows allocated target array
      trimmed =>
    obtain rfl := (layout_of_alloc allocated).1
    exact Or.inr ⟨rfl, lba, trimLen, memory, trims, buf,
      ⟨accepted, allows, ⟨unused, allocated⟩, target, array, trimmed⟩, rfl⟩

/-- A delete without a cache leaves the media, or it trims the range behind the address at
which the key is found. -/
theorem sequential_delete (noCache : store.cacheSize = 0) (idle : Idle state)
    {key : List UInt8} {buf : Option Region} {allocated : Bool} {result : Except NvmErrorCode Unit}
    (ran : (kvDelete store poolId key buf allocated).run (answer store thread) state =
      some (result, after)) :
    after = state ∧ (result = .ok () → lookupLba store state.media poolId key = none) ∨
      ∃ lba, lookupLba store state.media poolId key = some lba ∧ result = .ok () ∧
        after.media = state.media.trim lba (2 ^ store.valueBits) ∧
        after.safeLbaList = state.safeLbaList ∧ after.clock = state.clock := by
  obtain ⟨ended, reached, returned, effect⟩ :=
    run_kvDelete store thread noCache state idle poolId key buf allocated
  rw [ran, Option.some.injEq, Prod.mk.injEq] at returned
  obtain ⟨rfl, rfl⟩ := returned
  cases effect with
  | invalid _ => exact Or.inl ⟨rfl, fun success => by cases success⟩
  | unallocated _ _ => exact Or.inl ⟨rfl, fun success => by cases success⟩
  | absent _ found => exact Or.inl ⟨rfl, fun _ => found⟩
  | outOfMemory lba _ _ _ => exact Or.inl ⟨rfl, fun success => by cases success⟩
  | trimmed lba batches _ found => exact Or.inr ⟨lba, found, rfl, rfl, rfl, rfl⟩

/-- Every vector that a put with filled vectors hands over trims, or was prepared for the
pair. -/
theorem PutWritten.handed {lba trimLen : Nat} {memory : Nat → NvmIovec} {trims : List NvmIovec}
    {buf : Region}
    (written : PutWritten store thread poolId pair allocation state after lba trimLen memory trims
      buf) (filled : pair.Filled store) {vector : NvmIovec}
    (member : vector ∈ handedIovec memory
      (trims ++ putIovec store poolId pair (pair.layout store) buf state.clock lba)
      (pair.layout store).iovCount) :
    vector ∈ trims ∧ vector.iovLba = lba + valueSectors store.capabilities pair.valueLen ∧
        vector.iovOpcode = .trim ∨
      vector ∈ putIovec store poolId pair (pair.layout store) buf state.clock lba := by
  have enough : (pair.layout store).iovCount ≤ (trims ++ putIovec store poolId pair
      (pair.layout store) buf state.clock lba).length := by
    have counted : (pair.layout store).iovCount ≤
      vectorsFilled store.capabilities (pair.layout store) pair.valueLen := filled
    rw [List.length_append, putIovec, pairIovec_length]
    omega
  rw [handedIovec_take memory _ enough] at member
  rcases List.mem_append.mp (List.mem_of_mem_take member) with trim | write
  · exact Or.inl ⟨trim, kvProcessForTrim_starts written.ready.lengths.2.2 written.ready.trimmed
      trim⟩
  · exact Or.inr write

/-- What an address holds after a put it held before, or it is the key of the pair at the
address of the put, or a sector of the value reads as its header. -/
theorem PutWritten.held {lba trimLen : Nat} {memory : Nat → NvmIovec} {trims : List NvmIovec}
    {buf : Region}
    (written : PutWritten store thread poolId pair allocation state after lba trimLen memory trims
      buf) (filled : pair.Filled store) {other : UInt32} {key : List UInt8} {l : Nat}
    (valid : kvValidateKey key = true) (held : holds store after.media other key l = true) :
    holds store state.media other key l = true ∨
      (l = lba ∧ poolId = other ∧ pair.key = key) ∨
      ∃ sector, ValueSector store pair lba l sector ∧ headerMatches sector other key = true := by
  obtain ⟨nonempty, short⟩ := of_decide_eq_true valid
  obtain ⟨⟨_, pairShort⟩, _, bounded⟩ := written.ready.lengths
  rw [written.reached] at held
  rcases Media.applyBatch_cases store.sectorSize (handedIovec memory
      (trims ++ putIovec store poolId pair (pair.layout store) buf state.clock lba)
      (pair.layout store).iovCount) state.media l with same | ⟨vector, member, covered, content⟩
  · left
    rwa [← holds_congr short same]
  · cases left : Media.vectorContent store.sectorSize vector l with
    | none => exact absurd (content.trans left) (mapped_of_holds nonempty held)
    | some sector =>
      right
      have matched : headerMatches sector other key = true := by
        rw [← holds_sector short (content.trans left)]
        exact held
      rcases written.handed filled member with ⟨_, _, trim⟩ | write
      · rw [Media.vectorContent, trim] at left
        cases left
      · rcases putIovec_content bounded write covered left with ⟨here, first⟩ | value
        · left
          rw [first, headerMatches_firstSector pairShort short, decide_eq_true_eq] at matched
          exact ⟨here, matched⟩
        · exact Or.inr ⟨sector, value, matched⟩

/-- A delete leaves the media, or a range behind the address at which the key is found is
trimmed. No address holds a key that it did not hold before. -/
theorem held_after_trim {media : Media} {lba sectors : Nat} {other : UInt32} {key : List UInt8}
    {l : Nat} (valid : kvValidateKey key = true)
    (held : holds store (media.trim lba sectors) other key l = true) :
    holds store media other key l = true ∧ ¬(lba ≤ l ∧ l < lba + sectors) := by
  obtain ⟨nonempty, short⟩ := of_decide_eq_true valid
  have outside : ¬(lba ≤ l ∧ l < lba + sectors) :=
    fun inside => mapped_of_holds nonempty held (Media.trim_inside inside)
  exact ⟨(holds_congr short (Media.trim_outside outside)).symm.trans held, outside⟩

/-- A call leaves the media, or is a put that is written, or trims a range. -/
inductive StepEffect (store : NvmKvStore) (thread : ι)
    (condition : SequentialCall → StoreState ι → Prop) (state after : StoreState ι) : Prop where
  | stays (same : after.media = state.media)
  | puts (poolId : UInt32) (pair : NvmKvIovec) (allocation : Allocation)
      (admitted : condition (.kvPut poolId pair allocation) state) (lba trimLen : Nat)
      (memory : Nat → NvmIovec) (trims : List NvmIovec) (buf : Region)
      (written : PutWritten store thread poolId pair allocation state after lba trimLen memory
        trims buf)
  | trims (lba sectors : Nat) (trimmed : after.media = state.media.trim lba sectors)

/-- What a step does under a condition it does under a weaker one. -/
theorem StepEffect.mono {condition weaker : SequentialCall → StoreState ι → Prop}
    (implied : ∀ call state, condition call state → weaker call state)
    (effect : StepEffect store thread condition state after) :
    StepEffect store thread weaker state after := by
  cases effect with
  | stays same => exact .stays same
  | puts poolId pair allocation admitted lba trimLen memory trims buf written =>
    exact .puts poolId pair allocation (implied _ _ admitted) lba trimLen memory trims buf written
  | trims lba sectors trimmed => exact .trims lba sectors trimmed

/-- After every call nothing is locked, and the media are as one of the effects leaves them. -/
theorem SequentialStep.effect (noCache : store.cacheSize = 0)
    {condition : SequentialCall → StoreState ι → Prop} (idle : Idle state)
    (step : SequentialStep store thread condition state after) :
    Idle after ∧ StepEffect store thread condition state after := by
  obtain ⟨call, admitted, ran⟩ := step
  cases call with
  | kvPut poolId pair allocation =>
    obtain ⟨⟨result, reached⟩, ended, rfl⟩ := Option.map_eq_some_iff.mp ran
    rcases sequential_put noCache idle ended with
      ⟨_, same⟩ | ⟨_, lba, trimLen, memory, trims, buf, written⟩
    · rw [same]
      exact ⟨idle, .stays rfl⟩
    · refine ⟨?_, .puts poolId pair allocation admitted lba trimLen memory trims buf written⟩
      rw [written.reached]
      exact idle
  | kvDelete poolId key buf allocated =>
    obtain ⟨⟨result, reached⟩, ended, rfl⟩ := Option.map_eq_some_iff.mp ran
    rcases sequential_delete noCache idle ended with ⟨same, _⟩ | ⟨lba, _, _, media, list, _⟩
    · rw [same]
      exact ⟨idle, .stays rfl⟩
    · refine ⟨?_, .trims lba _ media⟩
      unfold Idle
      rw [list]
      exact idle
  | between clock inUse deleted =>
    cases ran
    exact ⟨idle, .stays rfl⟩

/-- What every effect preserves holds throughout a run. Induction follows the calls. -/
theorem SequentialRun.preserves (noCache : store.cacheSize = 0)
    {condition : SequentialCall → StoreState ι → Prop} {invariant : Media → Prop}
    (kept : ∀ before after : StoreState ι, Idle before → invariant before.media →
      StepEffect store thread condition before after → invariant after.media)
    {start : StoreState ι} (first : Idle start) (initial : invariant start.media)
    (run : SequentialRun store thread condition start state) :
    Idle state ∧ invariant state.media := by
  induction run with
  | refl => exact ⟨first, initial⟩
  | tail _ step inductionHypothesis =>
    obtain ⟨idle, holding⟩ := inductionHypothesis
    obtain ⟨next, effect⟩ := step.effect noCache idle
    exact ⟨next, kept _ _ idle holding effect⟩

/-- A run of calls begins and ends with nothing locked. -/
theorem SequentialRun.idle (noCache : store.cacheSize = 0)
    {condition : SequentialCall → StoreState ι → Prop} {start : StoreState ι}
    (first : Idle start) (run : SequentialRun store thread condition start state) : Idle state :=
  (@SequentialRun.preserves _ _ _ _ noCache _ (fun _ => True) (fun _ _ _ _ _ => trivial) _ first
    trivial run).1

/-- A put whose search ends at a free window has everything that it needs, once its memory is
allocated. -/
theorem PutReady.of_free {memory : Nat → NvmIovec} {lba : Nat} (noCache : store.cacheSize = 0)
    (accepted : putAccepted store state poolId pair = true)
    (allocated : ∃ unused, kvAllocForWrite store.capabilities pair.key.length pair.value
      pair.valueLen allocation.buf = .ok (pair.layout store, unused))
    (array : allocation.iovec = some memory)
    (address : (store.probes poolId pair.key).find? (fun lba =>
      windowFree store state.media lba || holds store state.media poolId pair.key lba) = some lba)
    (free : windowFree store state.media lba = true) :
    PutReady store state poolId pair allocation memory [] lba 0 := by
  have missed : cacheAnswer store state poolId pair.key = (false, .zero) := if_neg (by omega)
  have fresh : ∀ lbas : List Nat, lbas.find? (fun lba => windowFree store state.media lba ||
      holds store state.media poolId pair.key lba) = some lba →
      place store state.clock state.media poolId pair.key pair.replace lbas = .fresh lba := by
    intro lbas found
    induction lbas with
    | nil => cases found
    | cons next rest inductionHypothesis =>
      cases taken : windowFree store state.media next with
      | true =>
        rw [List.find?_cons_of_pos (by rw [taken, Bool.true_or]), Option.some.injEq] at found
        rw [place, taken, if_pos rfl, found]
      | false =>
        cases held : holds store state.media poolId pair.key next with
        | true =>
          rw [List.find?_cons_of_pos (by rw [held, Bool.or_true]), Option.some.injEq] at found
          rw [← found, taken] at free
          cases free
        | false =>
          rw [List.find?_cons_of_neg (by simp [taken, held])] at found
          rw [place, taken, held, if_neg Bool.false_ne_true, if_neg Bool.false_ne_true]
          exact inductionHypothesis found
  refine ⟨accepted, ?_, allocated, ?_, array, ?_⟩
  · rw [cacheRefuses, missed]
    rfl
  · rw [putTarget, missed, putPlace, fresh _ address]
    rfl
  · simp [kvProcessForTrim]

/-- What a call leaves to the next one, apart from the media. -/
structure Continues (state after : StoreState ι) : Prop where
  idle : Idle after
  inUse : after.inUse = state.inUse
  deleted : after.deleted = state.deleted

/-- A key that is accepted stays so while the pools are the same. -/
theorem Continues.accepts {key : List UInt8} (continues : Continues state after)
    (accepted : keyAccepted state poolId key = true) : keyAccepted after poolId key = true := by
  rw [keyAccepted, continues.inUse, continues.deleted]
  exact accepted

/-- A put that is ready and whose value fits its first sector writes that sector. -/
theorem PutReady.small_run {memory : Nat → NvmIovec} {lba trimLen : Nat}
    (ready : PutReady store state poolId pair allocation memory [] lba trimLen)
    (idle : Idle state)
    (fits : fitsSector store.capabilities pair.key.length pair.valueLen)
    (counted : CountsVectors store.capabilities
      (bufferLength store.capabilities pair.key.length pair.valueLen)) :
    ∃ after, (kvPut store poolId pair allocation).run (answer store thread) state =
        some (.ok pair.valueLen, after) ∧
      Continues state after ∧ ∃ buf, after.media = Function.update state.media lba
        (some (firstSector store poolId pair (pair.layout store) buf state.clock)) := by
  obtain ⟨buf, ran⟩ := ready.run thread idle
  have written := @PutReady.media_after _ _ thread _ _ _ _ _ _ _ ready (.inl fits) counted buf
  refine ⟨_, ran, ⟨idle, rfl, rfl⟩, buf, ?_⟩
  rw [written]
  have inSector : (pair.layout store).userBufferUsage = false := by
    rw [NvmKvIovec.layout, writeLayout_fits _ fits]
  rw [pairWritten, firstSector, if_neg (by rw [inSector]; exact Bool.false_ne_true),
    if_neg (by rw [inSector]; exact Bool.false_ne_true)]
  funext l
  by_cases here : l = lba
  · subst here
    rw [Media.write_inside ⟨le_rfl, Nat.lt_succ_self l⟩, Function.update_self, Nat.sub_self,
      Nat.zero_mul, Region.drop_zero]
  · rw [Media.write_outside (by omega), Function.update_of_ne here]

/-- A delete that finds the key, and has what it needs, trims the window there. -/
theorem delete_step (noCache : store.cacheSize = 0) (idle : Idle state) {key : List UInt8}
    (accepted : keyAccepted state poolId key = true) {lba : Nat}
    (found : lookupLba store state.media poolId key = some lba) (buf : Region) :
    ∃ after, (kvDelete store poolId key (some buf) true).run (answer store thread) state =
        some (.ok (), after) ∧ Continues state after ∧
      after.media = state.media.trim lba (2 ^ store.valueBits) := by
  obtain ⟨result, after, ran, effect⟩ :=
    run_kvDelete store thread noCache state idle poolId key (some buf) true
  cases effect with
  | invalid rejected => exact absurd accepted (by simp [rejected])
  | unallocated _ none => cases none
  | outOfMemory _ _ _ none => cases none
  | absent _ none => exact absurd (found.symm.trans none) (by simp)
  | trimmed other batches _ otherFound =>
    rw [found, Option.some.injEq] at otherFound
    subst otherFound
    exact ⟨_, ran, ⟨idle, rfl, rfl⟩, rfl⟩

end Calls

section Bytes

variable {poolId : UInt32} {key : List UInt8}

/-- A pair with a value of one byte, which is put with replacement. -/
def bytePair (key : List UInt8) : NvmKvIovec := ⟨key, ⟨0, fun _ => 1⟩, 1, 0, 0, true⟩

/-- A pair with a value of one byte fits a sector. -/
theorem bytePair_fits (short : key.length ≤ nvmKvMaxKeySize) :
    fitsSector NvmKvStore.terabyteStore.capabilities (bytePair key).key.length
      (bytePair key).valueLen := by
  have limit : nvmKvMaxKeySize = 128 := rfl
  change 40 + key.length + 1 ≤ 512
  omega

/-- A put of such a pair whose search ends at a free window writes one sector. -/
theorem bytePair_run {thread : ι} {state : StoreState ι} {lba : Nat} (idle : Idle state)
    (accepted : keyAccepted state poolId key = true)
    (allocated : ∃ unused, kvAllocForWrite NvmKvStore.terabyteStore.capabilities
      (bytePair key).key.length (bytePair key).value (bytePair key).valueLen plentyMemory.buf =
        .ok ((bytePair key).layout NvmKvStore.terabyteStore, unused))
    (address : (NvmKvStore.terabyteStore.probes poolId key).find? (fun lba =>
      windowFree NvmKvStore.terabyteStore state.media lba ||
        holds NvmKvStore.terabyteStore state.media poolId key lba) = some lba)
    (free : windowFree NvmKvStore.terabyteStore state.media lba = true) :
    ∃ after, (kvPut NvmKvStore.terabyteStore poolId (bytePair key) plentyMemory).run
        (answer NvmKvStore.terabyteStore thread) state = some (.ok 1, after) ∧
      Continues state after ∧ ∃ buf, after.media = Function.update state.media lba
        (some (firstSector NvmKvStore.terabyteStore poolId (bytePair key)
          ((bytePair key).layout NvmKvStore.terabyteStore) buf state.clock)) := by
  have short : key.length ≤ nvmKvMaxKeySize := by
    rw [keyAccepted, Bool.and_eq_true] at accepted
    exact (of_decide_eq_true accepted.2).2
  have counted : CountsVectors NvmKvStore.terabyteStore.capabilities (bufferLength
      NvmKvStore.terabyteStore.capabilities (bytePair key).key.length (bytePair key).valueLen) :=
    PowerOfTwoLimit.counts ⟨⟨10, by decide⟩, by decide⟩ (show 1 ≤ nvmKvMaxValueSize by decide)
  have valid : kvValidateValue NvmKvStore.terabyteStore false (bytePair key).valueLen = true :=
    show kvValidateValue NvmKvStore.terabyteStore false 1 = true by decide
  exact (PutReady.of_free rfl (by rw [putAccepted, valid, Bool.and_true]; exact accepted)
    allocated rfl address free).small_run idle (bytePair_fits short) counted

/-- Such a put is a step of a run. -/
theorem bytePair_put {state : StoreState Unit} {lba : Nat} (idle : Idle state)
    {condition : SequentialCall → StoreState Unit → Prop}
    (admitted : condition (.kvPut poolId (bytePair key) plentyMemory) state)
    (accepted : keyAccepted state poolId key = true)
    (allocated : ∃ unused, kvAllocForWrite NvmKvStore.terabyteStore.capabilities
      (bytePair key).key.length (bytePair key).value (bytePair key).valueLen plentyMemory.buf =
        .ok ((bytePair key).layout NvmKvStore.terabyteStore, unused))
    (address : (NvmKvStore.terabyteStore.probes poolId key).find? (fun lba =>
      windowFree NvmKvStore.terabyteStore state.media lba ||
        holds NvmKvStore.terabyteStore state.media poolId key lba) = some lba)
    (free : windowFree NvmKvStore.terabyteStore state.media lba = true) :
    ∃ after, SequentialStep NvmKvStore.terabyteStore () condition state after ∧
      Continues state after ∧ ∃ buf, after.media = Function.update state.media lba
        (some (firstSector NvmKvStore.terabyteStore poolId (bytePair key)
          ((bytePair key).layout NvmKvStore.terabyteStore) buf state.clock)) := by
  obtain ⟨after, ran, effect⟩ := @bytePair_run _ _ _ () _ _ idle accepted allocated address free
  exact ⟨after, ⟨.kvPut poolId (bytePair key) plentyMemory, admitted,
    congrArg (Option.map Prod.snd) ran⟩, effect⟩

end Bytes

end Nvmkv
