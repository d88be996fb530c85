import Nvmkv.ConcurrentPuts
import Nvmkv.UniqueKeys

/-!
# Puts of one absent key

Puts that run at the same time name one key that no address holds, and none of them is to
replace a pair. The searches of all of them go to the first address of the key whose window
is unmapped, and end there: an address in front of it is mapped and has another header. Who
takes that address finds nothing written yet, if it is taken in time, and writes the key.
Everyone else finds the key there, also who waited for the address, and is refused.

What carries this is that the address is not given back before the key is written. A put that
found the address taken therefore comes to know that the key is written once the address is
free again. A put that gets no memory for its vectors would give the address back without
writing, and never succeeds.
-/

namespace Nvmkv

variable {ι : Type}

namespace PutSystem

variable (system : PutSystem ι) (poolId : UInt32) (key : List UInt8) (clock : Nat)

/-- All puts name a key that no address holds, and each one writes it if it can: it replaces
nothing, it has memory for its vectors, it announces at least one and fills those that it
announces, and its pair does not count as expired when it is put. -/
structure Races : Prop where
  named : ∀ thread, (system.calls thread).poolId = poolId ∧ (system.calls thread).pair.key = key
  absent : ∀ lba ∈ system.store.probes poolId key,
    holds system.store system.media poolId key lba = false
  keeps : ∀ thread, (system.calls thread).pair.replace = false
  memory : ∀ thread, (system.calls thread).allocation.iovec ≠ none
  filled : ∀ thread, (system.calls thread).pair.Filled system.store
  announced : ∀ thread, 0 < ((system.calls thread).pair.layout system.store).iovCount
  lasting : ∀ thread, expiresAtOnce system.store (system.calls thread).pair clock = false

/-- The first address of the key whose window is unmapped at the start. -/
def firstFree : Option Nat :=
  (system.store.probes poolId key).find? (windowFree system.store system.media)

/-- The key was written at an address, and nothing elsewhere. -/
structure KeyWritten (lba : Nat) (media : Media) : Prop where
  held : holds system.store media poolId key lba = true
  lasting : pairExpired system.store clock (storedHeader system.store media lba) = false
  outside : ∀ l, l < lba ∨ lba + 2 ^ system.store.valueBits ≤ l → media l = system.media l

/-- Nothing was written yet, or one put has written the key at the first address. -/
def RaceState (state : StoreState ι) : Prop :=
  state.clock = clock ∧
    (state.log = [] ∧ state.media = system.media ∨
      ∃ entry lba, state.log = [entry] ∧ system.firstFree poolId key = some lba ∧
        system.KeyWritten poolId key clock lba state.media)

/-- The first address is on the safe list, or the key is written. -/
def FirstTaken (state : StoreState ι) : Prop :=
  ∃ lba, system.firstFree poolId key = some lba ∧ (state.safeLbaList lba ≠ none ∨ state.log ≠ [])

/-- What puts of one key owe each other: the holder of the first address is the only one to
write, and it does not give the address back before. -/
def raceDiscipline : Discipline StoreOp (StoreState ι) ι where
  invariant := system.RaceState poolId key clock
  rely := fun thread before after =>
    (∀ lba, after.safeLbaList lba = some thread ↔ before.safeLbaList lba = some thread) ∧
      (∀ lba, system.firstFree poolId key = some lba → before.safeLbaList lba = some thread →
        after.log = before.log) ∧
      (system.FirstTaken poolId key before → system.FirstTaken poolId key after) ∧
      ∀ entry ∈ before.log, entry ∈ after.log
  allowed := fun thread op state => (system.calls thread).TakesInTime system.store state op
  checked := fun _ _ _ => True

variable {system poolId key clock} {state : StoreState ι} {thread : ι} {lba : Nat}

section States

/-- The first free address of a key is one of its addresses. -/
theorem probed_of_firstFree (first : system.firstFree poolId key = some lba) :
    lba ∈ system.store.probes poolId key := List.mem_of_find?_eq_some first

variable (valid : kvValidateKey key = true)
include valid

/-- The window of another address of the key is what it was. -/
theorem KeyWritten.window {written : Nat} {media : Media}
    (wrote : system.KeyWritten poolId key clock written media)
    (first : system.firstFree poolId key = some written)
    (probed : lba ∈ system.store.probes poolId key) (other : lba ≠ written) :
    ∀ l, lba ≤ l → l < lba + 2 ^ system.store.valueBits → media l = system.media l := by
  have nonempty : key ≠ [] := List.length_pos_iff.mp (of_decide_eq_true valid).1
  intro l lower upper
  apply wrote.outside
  have apart := windows_apart nonempty probed (probed_of_firstFree first) other
  omega

variable (raceState : system.RaceState poolId key clock state)
include raceState

/-- The key is at the first address only, where it has not expired. -/
theorem RaceState.of_held (races : system.Races poolId key clock)
    (probed : lba ∈ system.store.probes poolId key)
    (held : holds system.store state.media poolId key lba = true) :
    system.firstFree poolId key = some lba ∧ state.log ≠ [] ∧
      pairExpired system.store state.clock (storedHeader system.store state.media lba) =
        false := by
  have short := (of_decide_eq_true valid).2
  obtain ⟨time, ⟨_, same⟩ | ⟨entry, written, log, first, wrote⟩⟩ := raceState
  · rw [same, races.absent lba probed] at held
    cases held
  · by_cases here : lba = written
    · subst here
      exact ⟨first, by simp [log], time ▸ wrote.lasting⟩
    · have same := wrote.window valid first probed here lba le_rfl
        (Nat.lt_add_of_pos_right (Nat.two_pow_pos _))
      rw [holds_congr short same, races.absent lba probed] at held
      cases held

omit valid in
/-- Once something is written, the first address holds the key. -/
theorem RaceState.held (first : system.firstFree poolId key = some lba) (wrote : state.log ≠ []) :
    holds system.store state.media poolId key lba = true := by
  obtain ⟨_, ⟨silent, _⟩ | ⟨entry, written, log, same, written⟩⟩ := raceState
  · exact absurd silent wrote
  · rw [first] at same
    obtain rfl := Option.some.inj same
    exact written.held

/-- An unmapped window behind mapped ones is that of the first address. -/
theorem RaceState.first_of_free {earlier later : List Nat}
    (split : system.store.probes poolId key = earlier ++ lba :: later)
    (passed : ∀ other ∈ earlier, windowFree system.store system.media other = false)
    (free : windowFree system.store state.media lba = true) :
    system.firstFree poolId key = some lba := by
  have firstOf : windowFree system.store system.media lba = true →
      system.firstFree poolId key = some lba := by
    intro free
    rw [firstFree, split, List.find?_append, List.find?_eq_none.mpr, Option.none_or,
      List.find?_cons_of_pos free]
    intro other member
    rw [passed other member]
    exact Bool.false_ne_true
  have probed : lba ∈ system.store.probes poolId key := by
    rw [split]
    exact List.mem_append_right _ List.mem_cons_self
  obtain ⟨_, ⟨_, same⟩ | ⟨entry, written, log, first, wrote⟩⟩ := raceState
  · exact firstOf (same ▸ free)
  · by_cases here : lba = written
    · exact here ▸ first
    · exact firstOf ((windowFree_congr (wrote.window valid first probed here)).2 ▸ free)

/-- A mapped window was mapped at the start, or the key is written there. -/
theorem RaceState.passed_or_written (probed : lba ∈ system.store.probes poolId key)
    (mapped : windowFree system.store state.media lba = false) :
    windowFree system.store system.media lba = false ∨
      system.firstFree poolId key = some lba ∧ state.log ≠ [] := by
  obtain ⟨_, ⟨_, same⟩ | ⟨entry, written, log, first, wrote⟩⟩ := raceState
  · exact Or.inl (same ▸ mapped)
  · by_cases here : lba = written
    · exact Or.inr ⟨here ▸ first, by simp [log]⟩
    · exact Or.inl ((windowFree_congr (wrote.window valid first probed here)).2 ▸ mapped)

end States

section Written

variable {pair : NvmKvIovec} {buf : Region} {memory : Nat → NvmIovec}

/-- At least one vector is announced, so that the header is handed over. -/
theorem handed_firstSector {store : NvmKvStore} (valid : pair.Valid store)
    (filled : pair.Filled store) (announced : 0 < (pair.layout store).iovCount)
    (media : Media) :
    media.applyBatch store.sectorSize (handedIovec memory (putIovec store poolId pair
      (pair.layout store) buf clock lba) (pair.layout store).iovCount) lba =
        some (firstSector store poolId pair (pair.layout store) buf clock) := by
  obtain ⟨positive, bounded, _⟩ := of_decide_eq_true valid.2
  have limit : (nvmKvMaxValueSize : Nat) = 1047552 := rfl
  have enough : (pair.layout store).iovCount ≤
      (putIovec store poolId pair (pair.layout store) buf clock lba).length := by
    rw [putIovec, pairIovec_length]
    exact filled
  rw [handedIovec_take memory _ enough]
  obtain ⟨first, rest, split, covers⟩ := @putIovec_head store poolId pair buf clock lba
  have taken : first ∈ (putIovec store poolId pair (pair.layout store) buf clock lba).take
      (pair.layout store).iovCount := by
    rw [split]
    cases count : (pair.layout store).iovCount with
    | zero => omega
    | succ more => exact List.mem_cons_self
  obtain ⟨vector, member, covered, content⟩ :=
    @Media.applyBatch_covered _ _ _ media ⟨first, taken, covers⟩
  have written := (pairIovec_content _ _ pair.value (by omega) lba media
    (List.mem_of_mem_take member) covered).2
  refine content.trans (written.trans ?_)
  rw [pairWritten_first]
  rfl

/-- The batch of a put at the first address writes the key there. -/
theorem keyWritten_handed (races : system.Races poolId key clock)
    (valid : (system.calls thread).pair.Valid system.store) {trims : List NvmIovec}
    (trimmed : kvProcessForTrim system.store.capabilities (system.calls thread).pair.valueLen 0
      lba = .ok trims) :
    system.KeyWritten poolId key clock lba (system.media.applyBatch system.store.sectorSize
      (handedIovec memory (trims ++ putIovec system.store poolId (system.calls thread).pair
        ((system.calls thread).pair.layout system.store) buf clock lba)
        ((system.calls thread).pair.layout system.store).iovCount)) := by
  obtain ⟨positive, bounded, _⟩ := of_decide_eq_true valid.2
  have short := (of_decide_eq_true valid.1).2
  have filled := races.filled thread
  have named := (races.named thread).2
  have none : trims = [] := by
    unfold kvProcessForTrim at trimmed
    simpa using trimmed.symm
  subst none
  rw [List.nil_append]
  have header := @handed_firstSector poolId clock lba _ buf memory system.store valid filled
    (races.announced thread) system.media
  refine ⟨?_, ?_, ?_⟩
  · rw [← named, holds_sector short header]
    exact (headerMatches_firstSector short short).trans (decide_eq_true ⟨rfl, rfl⟩)
  · obtain ⟨_, _, expiry⟩ := @readHeader_firstSector system.store poolId
      (system.calls thread).pair buf clock short bounded
    rw [storedHeader_sector header, pairExpired]
    change (decide (_ ∧ (readHeader (firstSector system.store poolId (system.calls thread).pair
      (writeLayout _ _ _ _) buf clock)).expiry < _ ∧ _)) = false
    have lasting := races.lasting thread
    rw [expiry]
    exact lasting
  · intro l outside
    rcases @put_sector system.store poolId (system.calls thread).pair
      ((system.calls thread).pair.layout system.store) buf memory [] clock lba 0 system.media
      positive bounded (Nat.two_pow_pos 32) (Or.inl rfl) trimmed filled l with
      same | ⟨trim, _⟩ | ⟨inside, _⟩
    · exact same
    · have sector := system.store.capabilities.sector_positive
      have none : valueSectors system.store.capabilities 0 = 0 := by
        rw [valueSectors]
        exact Nat.div_eq_of_lt (by omega)
      have behind := trim.1
      have within := trim.2
      omega
    · have few := @sectorsWritten_le system.store
        ((system.calls thread).pair.layout system.store) _ bounded
      omega

end Written

section Stable

/-- What only reads disturbs no put of the race. -/
theorem raceDiscipline_reads : ReadsFreely (system.raceDiscipline poolId key clock) where
  still := fun _ _ => ⟨fun _ => Iff.rfl, fun _ _ _ => rfl, id, fun _ => id⟩
  reads := fun _ => trivial

variable {lbas : List Nat}

/-- What a put holds stays its own. -/
theorem stable_account : (system.raceDiscipline poolId key clock).Stable thread
    (Account thread lbas) :=
  fun _ _ _ _ relied account => ⟨account.1, fun lba => (relied.1 lba).trans (account.2 lba)⟩

/-- Nothing is written while a thread has the first address. -/
theorem stable_silent (first : system.firstFree poolId key = some lba) :
    (system.raceDiscipline poolId key clock).Stable thread
      fun state => Account thread [lba] state ∧ state.log = [] := by
  rintro before after second third relied ⟨account, silent⟩
  refine ⟨stable_account before after second third relied account, ?_⟩
  rw [relied.2.1 lba first ((account.2 lba).mpr List.mem_cons_self), silent]

/-- What was written stays. -/
theorem stable_written : (system.raceDiscipline poolId key clock).Stable thread
    fun state => Account thread lbas state ∧ state.log ≠ [] := by
  rintro before after second third relied ⟨account, written⟩
  refine ⟨stable_account before after second third relied account, ?_⟩
  obtain ⟨entry, member⟩ := List.exists_mem_of_ne_nil _ written
  exact List.ne_nil_of_mem (relied.2.2.2 entry member)

/-- The first address stays taken while it is held. -/
theorem stable_taken : (system.raceDiscipline poolId key clock).Stable thread
    fun state => Account thread lbas state ∧ system.FirstTaken poolId key state := by
  rintro before after second third relied ⟨account, taken⟩
  exact ⟨stable_account before after second third relied account, relied.2.2.1 taken⟩

/-- Taking a free address keeps the race as it is. -/
theorem raceDiscipline_takes (raceState : system.RaceState poolId key clock state)
    (free : state.safeLbaList lba = none) :
    system.RaceState poolId key clock (state.hold thread lba) ∧
      ∀ other, other ≠ thread →
        (system.raceDiscipline poolId key clock).rely other state (state.hold thread lba) := by
  refine ⟨raceState, fun other apart =>
    ⟨StoreState.hold_others free apart, fun _ _ _ => rfl, ?_, fun _ => id⟩⟩
  rintro ⟨first, found, taken⟩
  refine ⟨first, found, taken.imp_left fun taken => ?_⟩
  simp only [StoreState.hold, Function.update_apply]
  split_ifs with here
  · exact Option.some_ne_none _
  · exact taken

end Stable

section Outlines

/-- What the search of a put leaves: with success the first address, at which nothing is
written, and else an address only after the key was written. -/
def RaceSearched (system : PutSystem ι) (poolId : UInt32) (key : List UInt8) (thread : ι)
    (result : GenLba) (state : StoreState ι) : Prop :=
  match result.retCode with
  | .ok () => (result.insertLba = true ∧ result.trimLen = 0 ∧
      system.firstFree poolId key = some result.keyHashVal) ∧
        Account thread [result.keyHashVal] state ∧ state.log = []
  | .error _ => Account thread (if result.insertLba then [result.keyHashVal] else []) state ∧
      (result.insertLba = true → state.log ≠ [])

/-- What the reading of one address leaves: it goes on only where a window was mapped. -/
def RaceRead (system : PutSystem ι) (poolId : UInt32) (key : List UInt8) (thread : ι)
    (lba : Nat) : SlotRead → StoreState ι → Prop
  | .returns result => system.RaceSearched poolId key thread result
  | .leaves held _ _ => fun state => (held = false ∧
      windowFree system.store system.media lba = false) ∧ Account thread [] state

/-- Who takes the first address at once finds nothing written; who waited for it finds the key
written. A key that is written lasts and may not be taken. -/
theorem outline_insertEntry (races : system.Races poolId key clock)
    (valid : kvValidateKey key = true) (first : system.firstFree poolId key = some lba) :
    (system.raceDiscipline poolId key clock).Outline (answer system.store) thread
      (insertEntry lba) (Account thread []) fun wait state =>
        Account thread [lba] state ∧ if wait then state.log ≠ [] else state.log = [] := by
  have nonempty := (of_decide_eq_true valid).1
  have short := (of_decide_eq_true valid).2
  have asked : (system.raceDiscipline poolId key clock).Outline (answer system.store) thread
      (checkEntry lba) (Account thread []) fun free state =>
        if free then Account thread [lba] state ∧ state.log = []
        else Account thread [] state ∧ system.FirstTaken poolId key state := by
    refine Discipline.Outline.perform stable_account ?_
    intro state raceState account
    refine ⟨trivial, ?_⟩
    intro answered reached allowed reply
    rw [answer] at reply
    split_ifs at reply with free
    · rw [Option.isNone_iff_eq_none] at free
      obtain ⟨rfl, rfl⟩ := Prod.mk.inj (Option.some.inj reply)
      obtain ⟨kept, relied⟩ := @raceDiscipline_takes _ _ _ _ _ _ thread _ raceState free
      refine ⟨kept, relied, account.take free, ?_⟩
      by_contra written
      have held := raceState.held first written
      rcases allowed free with none | ⟨_, replaces | expired⟩
      · exact mapped_of_holds nonempty held none
      · rw [races.keeps thread] at replaces
        cases replaces
      · have lasts := raceState.of_held valid races (probed_of_firstFree first) held
        rw [lasts.2.2] at expired
        cases expired
    · rw [Option.isNone_iff_eq_none] at free
      obtain ⟨rfl, rfl⟩ := Prod.mk.inj (Option.some.inj reply)
      exact ⟨raceState, fun other _ => raceDiscipline_reads.still other state, account, lba,
        first, Or.inl free⟩
  have awaited : (system.raceDiscipline poolId key clock).Outline (answer system.store) thread
      (awaitEntry lba) (fun state => Account thread [] state ∧ system.FirstTaken poolId key state)
      fun _ state => Account thread [lba] state ∧ state.log ≠ [] := by
    refine Discipline.Outline.perform stable_taken ?_
    rintro state raceState ⟨account, other, found, taken⟩
    refine ⟨trivial, ?_⟩
    intro answered reached _ reply
    rw [answer] at reply
    split_ifs at reply with free
    rw [Option.isNone_iff_eq_none] at free
    obtain ⟨_, rfl⟩ := Prod.mk.inj (Option.some.inj reply)
    obtain ⟨kept, relied⟩ := @raceDiscipline_takes _ _ _ _ _ _ thread _ raceState free
    obtain rfl := Option.some.inj (first.symm.trans found)
    exact ⟨kept, relied, account.take free, taken.resolve_left (absurd free)⟩
  refine Discipline.Outline.bind asked fun free => ?_
  cases free with
  | true => exact fun _ _ holds => holds
  | false =>
    refine Discipline.Outline.bind awaited fun _ => ?_
    exact fun _ _ holds => holds

variable {buf : Region}

/-- All puts run at one time. -/
theorem outline_currentTime {assertion : StoreState ι → Prop}
    (stable : (system.raceDiscipline poolId key clock).Stable thread assertion) :
    (system.raceDiscipline poolId key clock).Outline (answer system.store) thread currentTime
      assertion fun time state => assertion state ∧ time = clock := by
  refine Discipline.Outline.perform stable ?_
  intro state raceState holds
  refine ⟨trivial, ?_⟩
  intro answered reached _ reply
  obtain ⟨rfl, rfl⟩ := Prod.mk.inj (Option.some.inj reply)
  exact ⟨raceState, fun other _ => raceDiscipline_reads.still other state, holds, raceState.1⟩

/-- A pair that lasts is not expired. -/
theorem outline_kvExpire {assertion : StoreState ι → Prop} {hdr : NvmKvHeader}
    (stable : (system.raceDiscipline poolId key clock).Stable thread assertion)
    (lasts : pairExpired system.store clock hdr = false) :
    (system.raceDiscipline poolId key clock).Outline (answer system.store) thread
      (kvExpire system.store hdr lba false) assertion
      fun expired state => assertion state ∧ expired = .ok () := by
  refine Discipline.Outline.ite (fun _ _ _ holds => ⟨holds, rfl⟩) fun enabled => ?_
  refine Discipline.Outline.bind (outline_currentTime stable) fun time =>
    Discipline.Outline.given fun now => ?_
  subst now
  refine Discipline.Outline.ite (fun expired => ?_) fun _ _ _ holds => ⟨holds, rfl⟩
  exact absurd ⟨enabled, expired⟩ (of_decide_eq_false lasts)

/-- Reading an address of the key: where its window was mapped at the start the header is
another one, and where the key is written the put is refused. -/
theorem outline_kvGenLbaRead {pair : NvmKvIovec} (races : system.Races poolId pair.key clock)
    (valid : kvValidateKey pair.key = true) (keeps : pair.replace = false)
    (probed : lba ∈ system.store.probes poolId pair.key) {rounds : Nat} {insertLba : Bool} :
    (system.raceDiscipline poolId pair.key clock).Outline (answer system.store) thread
      (kvGenLbaRead system.store poolId pair lba (rounds + 1) insertLba buf)
      (fun state => Account thread (if insertLba then [lba] else []) state ∧
        (insertLba = false ∧ windowFree system.store system.media lba = false ∨
          system.firstFree poolId pair.key = some lba ∧ state.log ≠ []))
      (system.RaceRead poolId pair.key thread lba) := by
  have short := (of_decide_eq_true valid).2
  have stable : (system.raceDiscipline poolId pair.key clock).Stable thread fun state =>
      Account thread (if insertLba then [lba] else []) state ∧
        (insertLba = false ∧ windowFree system.store system.media lba = false ∨
          system.firstFree poolId pair.key = some lba ∧ state.log ≠ []) := by
    rintro before after second third relied ⟨account, passed | ⟨first, written⟩⟩
    · exact ⟨stable_account before after second third relied account, Or.inl passed⟩
    · have stays := stable_written before after second third relied ⟨account, written⟩
      exact ⟨stays.1, Or.inr ⟨first, stays.2⟩⟩
  have learned : ∀ state, system.RaceState poolId pair.key clock state →
      Account thread (if insertLba then [lba] else []) state ∧
        (insertLba = false ∧ windowFree system.store system.media lba = false ∨
          system.firstFree poolId pair.key = some lba ∧ state.log ≠ []) →
      if headerMatches (slotBuffer system.store state.media buf lba) poolId pair.key then
        state.log ≠ [] ∧ pairExpired system.store clock
          (readHeader (slotBuffer system.store state.media buf lba)) = false
      else insertLba = false ∧ windowFree system.store system.media lba = false := by
    rintro state raceState ⟨_, known⟩
    rw [headerMatches_slotBuffer system.store state.media buf lba poolId short,
      readHeader_slotBuffer]
    split_ifs with held
    · obtain ⟨_, written, lasts⟩ := raceState.of_held valid races probed held
      exact ⟨written, raceState.1 ▸ lasts⟩
    · exact known.resolve_right fun written => held (raceState.held written.1 written.2)
  refine Discipline.Outline.bind (@ReadsFreely.outline_nvmReadv_sector _ _ _ raceDiscipline_reads
    thread _ (fun region state => if headerMatches region poolId pair.key then
        state.log ≠ [] ∧ pairExpired system.store clock (readHeader region) = false
      else insertLba = false ∧ windowFree system.store system.media lba = false) buf lba stable
    fun state raceState holds _ => learned state raceState holds) fun read => ?_
  have refused : ∀ {code : NvmErrorCode} {read : Region} (state : StoreState ι),
      Account thread (if insertLba then [lba] else []) state →
      (insertLba = true → state.log ≠ []) →
      system.RaceRead poolId pair.key thread lba
        (.returns ⟨.error code, 0, lba, insertLba, read⟩) state :=
    fun _ account written => ⟨account, written⟩
  cases read with
  | error code =>
    rintro state _ ⟨⟨account, known⟩, _⟩
    refine refused state account fun held => ?_
    rcases known with ⟨free, _⟩ | ⟨_, written⟩
    · rw [held] at free
      cases free
    · exact written
  | ok result =>
    obtain ⟨readLen, regions⟩ := result
    refine Discipline.Outline.ite (fun matched => ?_) fun other => ?_
    · refine Discipline.Outline.strengthen (Discipline.Outline.given fun lasts : pairExpired
        system.store clock (readHeader (regions.headD buf)) = false => (?_ :
          Discipline.Outline _ _ thread _ (fun state =>
            Account thread (if insertLba then [lba] else []) state ∧ state.log ≠ []) _)) ?_
      · refine Discipline.Outline.bind (outline_kvExpire stable_written lasts) fun expired =>
          Discipline.Outline.given fun live => ?_
        subst live
        dsimp only
        rw [keeps]
        exact fun state _ holds => refused state holds.1 fun _ => holds.2
      · rintro state _ ⟨⟨account, _⟩, told⟩
        obtain ⟨region, rfl, tells⟩ := told readLen regions rfl
        rw [List.headD_cons] at matched
        rw [if_pos matched] at tells
        exact ⟨⟨account, tells.1⟩, tells.2⟩
    · refine Discipline.Outline.strengthen (Discipline.Outline.given fun passed : insertLba =
        false ∧ windowFree system.store system.media lba = false => (?_ :
          Discipline.Outline _ _ thread _
            (Account thread (if insertLba then [lba] else [])) _)) ?_
      · obtain ⟨rfl, mapped⟩ := passed
        exact fun state _ account => ⟨⟨rfl, mapped⟩, account⟩
      · rintro state _ ⟨⟨account, _⟩, told⟩
        obtain ⟨region, rfl, tells⟩ := told readLen regions rfl
        rw [List.headD_cons] at other
        rw [if_neg other] at tells
        exact ⟨account, tells⟩

/-- A window that is unmapped behind mapped ones is the first, and a mapped one was mapped at
the start or is written. -/
theorem outline_kvRangeExists (valid : kvValidateKey key = true) {earlier later : List Nat}
    (split : system.store.probes poolId key = earlier ++ lba :: later)
    (passed : ∀ other ∈ earlier, windowFree system.store system.media other = false) :
    (system.raceDiscipline poolId key clock).Outline (answer system.store) thread
      (kvRangeExists ⟨lba, system.store.maxSearchRange⟩) (Account thread [])
      fun found state => Account thread [] state ∧ match found with
        | .error .objectNotFound => system.firstFree poolId key = some lba
        | .error _ => True
        | .ok _ => windowFree system.store system.media lba = false ∨
            system.firstFree poolId key = some lba ∧ state.log ≠ [] := by
  have probed : lba ∈ system.store.probes poolId key := by
    rw [split]
    exact List.mem_append_right _ List.mem_cons_self
  have asked : (system.raceDiscipline poolId key clock).Outline (answer system.store) thread
      (nvmRangeExists ⟨lba, system.store.maxSearchRange⟩) (Account thread [])
      fun found state => Account thread [] state ∧ ∃ range, found = some range ∧
        if range.length = 0 then system.firstFree poolId key = some lba
        else windowFree system.store system.media lba = false ∨
          system.firstFree poolId key = some lba ∧ state.log ≠ [] := by
    refine Discipline.Outline.perform stable_account ?_
    intro state raceState account
    refine ⟨trivial, ?_⟩
    intro answered reached _ reply
    obtain ⟨rfl, rfl⟩ := Prod.mk.inj (Option.some.inj reply)
    refine ⟨raceState, fun other _ => raceDiscipline_reads.still other state, account, _, rfl, ?_⟩
    split_ifs with free
    · exact raceState.first_of_free valid split passed (decide_eq_true free)
    · exact raceState.passed_or_written valid probed (decide_eq_false free)
  refine Discipline.Outline.bind asked fun found => ?_
  cases found with
  | none => exact fun _ _ holds => ⟨holds.1, trivial⟩
  | some range =>
    rintro state _ ⟨account, _, same, known⟩
    obtain rfl := Option.some.inj same
    refine ⟨account, ?_⟩
    by_cases none : range.length = 0
    · simpa only [if_pos none] using known
    · simpa only [if_neg none] using known

/-- The search of a put along the addresses of the key, behind some that were mapped at the
start. Induction follows the addresses. -/
theorem outline_kvGenLbaProbes {pair : NvmKvIovec} (races : system.Races poolId pair.key clock)
    (valid : kvValidateKey pair.key = true) (keeps : pair.replace = false)
    {earlier lbas : List Nat} (split : system.store.probes poolId pair.key = earlier ++ lbas)
    (passed : ∀ other ∈ earlier, windowFree system.store system.media other = false) :
    (system.raceDiscipline poolId pair.key clock).Outline (answer system.store) thread
      (kvGenLbaProbes system.store poolId pair lbas false buf) (Account thread [])
      (system.RaceSearched poolId pair.key thread) := by
  induction lbas generalizing earlier buf with
  | nil => exact fun state _ account => ⟨account, nofun⟩
  | cons lba rest inductionHypothesis =>
    have probed : lba ∈ system.store.probes poolId pair.key := by
      rw [split]
      exact List.mem_append_right _ List.mem_cons_self
    have reads : ∀ {insertLba : Bool}, (system.raceDiscipline poolId pair.key clock).Outline
        (answer system.store) thread (kvGenLbaAt system.store poolId pair lba insertLba buf
          fun buf => kvGenLbaProbes system.store poolId pair rest false buf)
        (fun state => Account thread (if insertLba then [lba] else []) state ∧
          (insertLba = false ∧ windowFree system.store system.media lba = false ∨
            system.firstFree poolId pair.key = some lba ∧ state.log ≠ []))
        (system.RaceSearched poolId pair.key thread) := by
      intro insertLba
      refine Discipline.Outline.bind (outline_kvGenLbaRead races valid keeps probed)
        fun read => ?_
      split
      · exact fun state _ holds => holds
      · rintro state _ ⟨⟨held, _⟩, _⟩
        cases held
      · refine Discipline.Outline.strengthen (Discipline.Outline.given
          fun mapped : windowFree system.store system.media lba = false =>
            @inductionHypothesis _ (earlier ++ [lba]) ?_ ?_) ?_
        · rw [split, List.append_assoc, List.singleton_append]
        · intro other member
          rcases List.mem_append.mp member with before | here
          · exact passed other before
          · rwa [List.mem_singleton.mp here]
        · exact fun state _ holds => ⟨holds.2, holds.1.2⟩
    refine Discipline.Outline.bind (outline_kvRangeExists valid split passed) fun found => ?_
    split
    · refine Discipline.Outline.given fun first => ?_
      refine Discipline.Outline.bind (outline_insertEntry races valid first) fun wait => ?_
      cases wait with
      | true =>
        exact Discipline.Outline.strengthen (@reads true) fun _ _ holds =>
          ⟨holds.1, Or.inr ⟨first, holds.2⟩⟩
      | false => exact fun state _ holds => ⟨⟨rfl, rfl, first⟩, holds⟩
    · exact fun state _ holds => ⟨holds.1, nofun⟩
    · exact Discipline.Outline.strengthen (@reads false) fun _ _ holds =>
        ⟨holds.1, holds.2.imp_left fun mapped => ⟨rfl, mapped⟩⟩

/-- What the body of a put leaves: an address that it has still to give back only once the
key was written, and after a success a batch of its own. -/
def RaceEnds (thread : ι) (body : PutBody) (state : StoreState ι) : Prop :=
  Account thread (if body.insertLba then [body.keyHashVal] else []) state ∧
    (body.insertLba = true → state.log ≠ []) ∧ (body.retCode = .ok () → Handed thread state)

/-- What a put has handed over stays in the log. -/
theorem stable_raceHanded : (system.raceDiscipline poolId key clock).Stable thread
    (Handed thread) :=
  fun _ _ _ _ relied ⟨iovec, listed⟩ => ⟨iovec, relied.2.2.2 _ listed⟩

/-- The vectors of a put are prepared with the time at which all puts run. -/
theorem outline_kvProcessForWrite {assertion : StoreState ι → Prop} {pair : NvmKvIovec}
    {layout : WriteLayout}
    (stable : (system.raceDiscipline poolId key clock).Stable thread assertion) :
    (system.raceDiscipline poolId key clock).Outline (answer system.store) thread
      (kvProcessForWrite system.store.capabilities poolId pair layout buf
        (putExpiry system.store pair) lba) assertion
      fun prepared state => assertion state ∧
        prepared.1 = putIovec system.store poolId pair layout buf clock lba := by
  unfold kvProcessForWrite putIovec putHeader
  by_cases never : putExpiry system.store pair = 0
  · rw [if_pos never]
    refine fun _ _ holds => ⟨holds, ?_⟩
    simp only [absoluteExpiry, if_pos never]
  · rw [if_neg never]
    refine Discipline.Outline.bind (outline_currentTime stable) fun time =>
      Discipline.Outline.given fun now => ?_
    subst now
    exact fun _ _ holds => ⟨holds, rfl⟩

/-- The holder of the first address writes the key there. -/
theorem outline_raceWrite (races : system.Races poolId (system.calls thread).pair.key clock)
    (valid : (system.calls thread).pair.Valid system.store) {trims : List NvmIovec}
    {memory : Nat → NvmIovec}
    (first : system.firstFree poolId (system.calls thread).pair.key = some lba)
    (trimmed : kvProcessForTrim system.store.capabilities (system.calls thread).pair.valueLen 0
      lba = .ok trims) :
    (system.raceDiscipline poolId (system.calls thread).pair.key clock).Outline
      (answer system.store) thread
      (nvmWritev (handedIovec memory (trims ++ putIovec system.store poolId
        (system.calls thread).pair ((system.calls thread).pair.layout system.store) buf clock lba)
        ((system.calls thread).pair.layout system.store).iovCount))
      (fun state => Account thread [lba] state ∧ state.log = [])
      fun _ state => Account thread [lba] state ∧ Handed thread state := by
  have handed : (system.raceDiscipline poolId (system.calls thread).pair.key clock).Outline
      (answer system.store) thread
      (nvmBatchAtomicOperations (handedIovec memory (trims ++ putIovec system.store poolId
        (system.calls thread).pair ((system.calls thread).pair.layout system.store) buf clock lba)
        ((system.calls thread).pair.layout system.store).iovCount))
      (fun state => Account thread [lba] state ∧ state.log = [])
      fun _ state => Account thread [lba] state ∧ Handed thread state := by
    refine Discipline.Outline.perform (stable_silent first) ?_
    rintro state ⟨now, raced⟩ ⟨account, silent⟩
    refine ⟨trivial, ?_⟩
    intro answered reached _ reply
    obtain ⟨_, rfl⟩ := Prod.mk.inj (Option.some.inj reply)
    have untouched : state.media = system.media := by
      rcases raced with ⟨_, same⟩ | ⟨entry, _, log, _⟩
      · exact same
      · rw [silent] at log
        cases log
    have own := (account.2 lba).mpr List.mem_cons_self
    refine ⟨⟨now, Or.inr ⟨_, lba, congrArg (· ++ _) silent, first, ?_⟩⟩, fun other apart =>
      ⟨fun _ => Iff.rfl, ?_, ?_, fun _ => List.mem_append_left _⟩, account, _,
      List.mem_append_right _ List.mem_cons_self⟩
    · dsimp only
      rw [untouched]
      exact keyWritten_handed races valid trimmed
    · intro held found holds
      obtain rfl := Option.some.inj (first.symm.trans found)
      rw [own] at holds
      exact absurd (Option.some.inj holds).symm apart
    · exact fun ⟨taken, found, _⟩ => ⟨taken, found, Or.inr (by simp)⟩
  refine Discipline.Outline.bind handed fun done => ?_
  exact Discipline.Outline.ite (fun _ _ _ holds => holds) fun _ _ _ holds => holds

/-- A put whose address is known writes the key. -/
theorem outline_kvPutWrite_first (uncached : system.store.cacheSize = 0)
    (races : system.Races poolId (system.calls thread).pair.key clock)
    (valid : (system.calls thread).pair.Valid system.store) {placed : GenLba}
    {context : NvmKvCacheContext} (held : placed.insertLba = true) (whole : placed.trimLen = 0)
    (first : system.firstFree poolId (system.calls thread).pair.key = some placed.keyHashVal) :
    (system.raceDiscipline poolId (system.calls thread).pair.key clock).Outline
      (answer system.store) thread
      (kvPutWrite system.store poolId (system.calls thread).pair
        ((system.calls thread).pair.layout system.store) placed
        (system.calls thread).allocation.iovec context)
      (fun state => Account thread [placed.keyHashVal] state ∧ state.log = [])
      (RaceEnds thread) := by
  have ends : ∀ (retCode : Except NvmErrorCode Unit) (state : StoreState ι),
      Account thread [placed.keyHashVal] state → Handed thread state →
        RaceEnds thread ⟨retCode, placed.keyHashVal, placed.insertLba⟩ state := by
    rintro retCode state account ⟨iovec, listed⟩
    refine ⟨?_, fun _ => List.ne_nil_of_mem listed, fun _ => ⟨iovec, listed⟩⟩
    rw [if_pos held]
    exact account
  obtain ⟨memory, given⟩ := Option.ne_none_iff_exists'.mp (races.memory thread)
  have trimmed : kvProcessForTrim system.store.capabilities (system.calls thread).pair.valueLen 0
      placed.keyHashVal = .ok [] := by
    simp [kvProcessForTrim]
  unfold kvPutWrite
  rw [given, whole]
  dsimp only
  rw [trimmed]
  refine Discipline.Outline.bind (outline_kvProcessForWrite (stable_silent first)) fun prepared =>
    Discipline.Outline.given fun same => ?_
  obtain ⟨written, absExpiry⟩ := prepared
  obtain rfl : written = _ := same
  refine Discipline.Outline.bind (outline_raceWrite races valid first trimmed) fun retCode => ?_
  cases retCode with
  | error code => exact fun state _ holds => ends _ state holds.1 holds.2
  | ok done =>
    dsimp only
    rw [if_neg (by omega)]
    exact fun state _ holds => ends _ state holds.1 holds.2

/-- The body of a put gives no address back before the key is written. -/
theorem outline_kvPutBody (uncached : system.store.cacheSize = 0)
    (races : system.Races poolId (system.calls thread).pair.key clock) :
    (system.raceDiscipline poolId (system.calls thread).pair.key clock).Outline
      (answer system.store) thread
      (kvPutBody system.store poolId (system.calls thread).pair (system.calls thread).allocation)
      (Account thread []) (RaceEnds thread) := by
  have nothing : ∀ (code : NvmErrorCode) (lba : Nat) (state : StoreState ι),
      Account thread [] state → RaceEnds thread ⟨.error code, lba, false⟩ state :=
    fun _ _ _ account => ⟨account, nofun, nofun⟩
  refine Discipline.Outline.bind (raceDiscipline_reads.outline_reads (reads_kvValidatePoolId _)
    stable_account) fun accepted => ?_
  refine Discipline.Outline.ite (fun _ state _ account => nothing _ _ state account)
    fun accepted => ?_
  rw [if_neg (by omega)]
  have valid : (system.calls thread).pair.Valid system.store := by
    simp only [Bool.or_eq_true, Bool.not_eq_true', not_or, Bool.not_eq_false] at accepted
    exact ⟨accepted.1.2, accepted.2⟩
  unfold kvPutPlace
  split
  · exact fun state _ account => nothing _ _ state account
  · rename_i layout unused allocated
    obtain ⟨rfl, _⟩ := layout_of_alloc allocated
    refine Discipline.Outline.bind (outline_kvGenLbaProbes races valid.1 (races.keeps thread)
      (List.nil_append _).symm nofun) fun placed => ?_
    obtain ⟨retCode, trimLen, keyHashVal, insertLba, read⟩ := placed
    cases retCode with
    | error code => exact fun state _ holds => ⟨holds.1, holds.2, nofun⟩
    | ok done =>
      refine Discipline.Outline.strengthen (Discipline.Outline.given fun told : insertLba = true ∧
        trimLen = 0 ∧ system.firstFree poolId (system.calls thread).pair.key = some keyHashVal =>
          @outline_kvPutWrite_first _ _ _ _ _ uncached races valid
            ⟨.ok (), trimLen, keyHashVal, insertLba, read⟩ _ told.1 told.2.1 told.2.2) ?_
      exact fun state _ holds => ⟨holds.2, holds.1⟩

/-- A put that returns a length has handed over a batch, and gave the address back only once
the key was written. -/
theorem outline_kvPut_race (uncached : system.store.cacheSize = 0)
    (races : system.Races poolId key clock) :
    (system.raceDiscipline poolId key clock).Outline (answer system.store) thread
      ((system.calls thread).program system.store) (Account thread [])
      fun result state => ∀ length, result = .ok length → Handed thread state := by
  obtain ⟨rfl, rfl⟩ := races.named thread
  refine Discipline.Outline.bind (outline_kvPutBody uncached races) fun body => ?_
  obtain ⟨retCode, keyHashVal, insertLba⟩ := body
  have result : ∀ state, (retCode = .ok () → Handed thread state) → ∀ length,
      retCode.map (fun _ => (system.calls thread).pair.valueLen) = .ok length →
        Handed thread state := by
    intro state holds length success
    cases retCode with
    | error code => cases success
    | ok done => exact holds rfl
  cases insertLba with
  | false => exact fun state _ holds => result state holds.2.2
  | true =>
    have stable : (system.raceDiscipline (system.calls thread).poolId
        (system.calls thread).pair.key clock).Stable thread
        (RaceEnds thread ⟨retCode, keyHashVal, true⟩) := by
      rintro before after second third relied ⟨account, written, ends⟩
      have stays := stable_written before after second third relied ⟨account, written rfl⟩
      exact ⟨stays.1, fun _ => stays.2, fun success =>
        stable_raceHanded before after second third relied (ends success)⟩
    have released : (system.raceDiscipline (system.calls thread).poolId
        (system.calls thread).pair.key clock).Outline (answer system.store) thread
        (deleteLbaFromSafeList keyHashVal) (RaceEnds thread ⟨retCode, keyHashVal, true⟩)
        fun _ state => retCode = .ok () → Handed thread state := by
      refine Discipline.Outline.perform stable ?_
      rintro state raceState ⟨account, written, ends⟩
      refine ⟨trivial, ?_⟩
      intro answered reached _ reply
      obtain ⟨_, rfl⟩ := Prod.mk.inj (Option.some.inj reply)
      have own := (account.2 keyHashVal).mpr List.mem_cons_self
      exact ⟨raceState, fun other apart => ⟨StoreState.release_others own apart,
        fun _ _ _ => rfl, fun ⟨taken, found, _⟩ => ⟨taken, found, Or.inr (written rfl)⟩,
        fun _ => id⟩, ends⟩
    refine Discipline.Outline.bind released fun _ => ?_
    exact fun state _ holds => result state holds

end Outlines

section Race

variable [DecidableEq ι] {config : Config ι}

/-- Of puts that race for one absent key at most one succeeds, when all of them take the address in
time. The batches of two that succeed would both be the one batch of the log. -/
theorem race_once (uncached : system.store.cacheSize = 0) (races : system.Races poolId key clock)
    (starts : system.Starts state) (time : state.clock = clock)
    (reached : Config.Reachable (answer system.store)
      (fun thread op state => (system.calls thread).TakesInTime system.store state op)
      (system.start state) config)
    {first second : ι} {length other : Nat}
    (succeeded : config.threads first = .done (.ok length))
    (succeededToo : config.threads second = .done (.ok other)) : first = second := by
  have initial : (system.raceDiscipline poolId key clock).invariant (system.start state).shared :=
    ⟨time, Or.inl ⟨starts.silent, starts.media⟩⟩
  have placed : ∀ thread, Discipline.Placed (system.raceDiscipline poolId key clock)
      (answer system.store) (fun thread result state =>
        ∀ length, result = .ok length → Handed thread state) (system.start state) thread := by
    intro thread
    refine ⟨Account thread [], ⟨List.nodup_nil, fun lba => ?_⟩, outline_kvPut_race uncached races⟩
    change state.safeLbaList lba = some thread ↔ _
    rw [starts.free]
    simp
  have final : ∀ thread (result : Except NvmErrorCode Nat),
      (system.raceDiscipline poolId key clock).Stable thread
        fun state => ∀ length, result = .ok length → Handed thread state :=
    fun thread result before after second third relied holds length same =>
      stable_raceHanded before after second third relied (holds length same)
  have handed : ∀ {thread length}, config.threads thread = .done (.ok length) →
      Handed thread config.shared := fun returned =>
    Discipline.sound_returned initial placed final reached returned _ rfl
  obtain ⟨raceState, _⟩ := Discipline.sound initial placed final reached
  obtain ⟨iovec, listed⟩ := handed succeeded
  obtain ⟨others, listedToo⟩ := handed succeededToo
  obtain ⟨_, ⟨silent, _⟩ | ⟨entry, _, log, _⟩⟩ := raceState
  · rw [silent] at listed
    cases listed
  · rw [log, List.mem_singleton] at listed listedToo
    exact (Prod.mk.inj (listed.trans listedToo.symm)).1

end Race

end PutSystem

end Nvmkv
