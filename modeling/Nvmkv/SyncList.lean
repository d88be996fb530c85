import Mathlib.Data.Finset.Basic
import Mathlib.Logic.Relation
import Nvmkv.StoreMachine

/-!
# The sync list under its mutex

`kv_sync_list.cpp`: a set of values, a mutex and one condition variable for all of them. A
thread that inserts a value which is in the set waits until it is gone, and a thread that
deletes one wakes every waiting thread. Elsewhere the list answers each call at once. Here
the calls are taken statement by statement, with any number of threads, any values, and
wake-ups for which there is no reason.

Who holds a value is recorded beside the set, and so is whether a check of the running call
met a value that somebody held; no statement reads the records. The invariant is local: at
every point of the code it says what the thread at that point knows. Only the thread that
has the mutex changes the set, and it changes the record of a value that nobody holds or
that it holds itself, so that no other thread loses what it knows.
-/

namespace Nvmkv

/-- The points of the two functions at which a thread may be. -/
inductive SyncPoint (Value : Type) where
  | idle
  | insertEntry (entry : Value)
  | insertFind (entry : Value) (wait : Bool)
  | insertTest (entry : Value) (wait found : Bool)
  | condWait (entry : Value)
  | condWoken (entry : Value)
  | insertInsert (entry : Value) (wait : Bool)
  | insertUnlock (entry : Value) (wait : Bool)
  | insertReturn (entry : Value) (wait : Bool)
  | deleteEntry (entry : Value)
  | deleteFind (entry : Value)
  | deleteTest (entry : Value) (found : Bool)
  | deleteBroadcast
  | deleteUnlock (retCode : Bool)
  | deleteReturn (retCode : Bool)

/-- The list with its mutex, the threads, and the records: who holds a value, and whether a
thread's call has found its value held. -/
structure SyncState (ι Value : Type) where
  list : Finset Value
  mutex : Option ι
  point : ι → SyncPoint Value
  holders : Value → List ι
  foundHeld : ι → Bool

/-- A new list, with all threads outside. -/
def SyncState.new {ι Value : Type} : SyncState ι Value where
  list := ∅
  mutex := none
  point := fun _ => .idle
  holders := fun _ => []
  foundHeld := fun _ => false

/-- A thread that waits is woken. -/
def SyncPoint.woken {Value : Type} : SyncPoint Value → SyncPoint Value
  | .condWait entry => .condWoken entry
  | point => point

/-- The points at which a thread has the mutex. -/
def SyncPoint.InMutex {Value : Type} : SyncPoint Value → Bool
  | .insertFind _ _ | .insertTest _ _ _ | .insertInsert _ _ | .insertUnlock _ _ => true
  | .deleteFind _ | .deleteTest _ _ | .deleteBroadcast | .deleteUnlock _ => true
  | _ => false

variable {ι Value : Type}

/-- The mutex is where the threads are. -/
def Exclusive (point : ι → SyncPoint Value) (mutex : Option ι) : Prop :=
  ∀ thread, (point thread).InMutex = true ↔ mutex = some thread

variable [DecidableEq ι]

section Mutex

variable {points : ι → SyncPoint Value} {mutex : Option ι} {thread : ι} {point : SyncPoint Value}

/-- A thread that neither takes nor leaves the mutex. -/
theorem Exclusive.move (exclusive : Exclusive points mutex)
    (same : point.InMutex = (points thread).InMutex) :
    Exclusive (Function.update points thread point) mutex := by
  intro other
  by_cases own : other = thread
  · subst own
    rw [Function.update_self, same]
    exact exclusive other
  · rw [Function.update_of_ne own]
    exact exclusive other

/-- A thread that takes the mutex, which was free. -/
theorem Exclusive.lock (exclusive : Exclusive points none)
    (taken : point.InMutex = true) :
    Exclusive (Function.update points thread point) (some thread) := by
  intro other
  by_cases own : other = thread
  · subst own
    rw [Function.update_self]
    exact ⟨fun _ => rfl, fun _ => taken⟩
  · rw [Function.update_of_ne own, exclusive other]
    exact ⟨fun taken => (by cases taken), fun same => absurd (Option.some.inj same).symm own⟩

/-- A thread that has the mutex and leaves it. -/
theorem Exclusive.unlock
    (exclusive : Exclusive points mutex) (had : (points thread).InMutex = true)
    (left : point.InMutex = false) :
    Exclusive (Function.update points thread point) none := by
  intro other
  by_cases own : other = thread
  · subst own
    rw [Function.update_self, left]
    exact ⟨fun inside => Bool.noConfusion inside, fun taken => by cases taken⟩
  · rw [Function.update_of_ne own, exclusive other, (exclusive thread).mp had]
    exact ⟨fun same => absurd (Option.some.inj same).symm own, fun taken => by cases taken⟩

end Mutex

variable [DecidableEq Value]

/-- A thread goes on to another point. -/
def SyncState.moved (state : SyncState ι Value) (thread : ι) (point : SyncPoint Value) :
    SyncState ι Value :=
  { state with point := Function.update state.point thread point }

/-- One statement of a thread. Threads delete only what they hold. -/
inductive SyncStep (thread : ι) : SyncState ι Value → SyncState ι Value → Prop
  | callInsert {state : SyncState ι Value} (entry : Value) (here : state.point thread = .idle) :
      SyncStep thread state
        { state.moved thread (.insertEntry entry) with
          foundHeld := Function.update state.foundHeld thread false }
  | insertLock {state : SyncState ι Value} {entry : Value}
      (here : state.point thread = .insertEntry entry) (free : state.mutex = none) :
      SyncStep thread state
        { state.moved thread (.insertFind entry false) with mutex := some thread }
  | insertFind {state : SyncState ι Value} {entry : Value} {wait : Bool}
      (here : state.point thread = .insertFind entry wait) :
      SyncStep thread state
        { state.moved thread (.insertTest entry wait (decide (entry ∈ state.list))) with
          foundHeld := Function.update state.foundHeld thread
            (state.foundHeld thread || !(state.holders entry).isEmpty) }
  | insertWait {state : SyncState ι Value} {entry : Value} {wait : Bool}
      (here : state.point thread = .insertTest entry wait true) :
      SyncStep thread state { state.moved thread (.condWait entry) with mutex := none }
  | insertPast {state : SyncState ι Value} {entry : Value} {wait : Bool}
      (here : state.point thread = .insertTest entry wait false) :
      SyncStep thread state (state.moved thread (.insertInsert entry wait))
  | wake {state : SyncState ι Value} {entry : Value}
      (here : state.point thread = .condWait entry) :
      SyncStep thread state (state.moved thread (.condWoken entry))
  | wokenLock {state : SyncState ι Value} {entry : Value}
      (here : state.point thread = .condWoken entry) (free : state.mutex = none) :
      SyncStep thread state
        { state.moved thread (.insertFind entry true) with mutex := some thread }
  | insertInsert {state : SyncState ι Value} {entry : Value} {wait : Bool}
      (here : state.point thread = .insertInsert entry wait) :
      SyncStep thread state
        { state.moved thread (.insertUnlock entry wait) with
          list := insert entry state.list
          holders := Function.update state.holders entry (thread :: state.holders entry) }
  | insertUnlock {state : SyncState ι Value} {entry : Value} {wait : Bool}
      (here : state.point thread = .insertUnlock entry wait) :
      SyncStep thread state { state.moved thread (.insertReturn entry wait) with mutex := none }
  | insertReturn {state : SyncState ι Value} {entry : Value} {wait : Bool}
      (here : state.point thread = .insertReturn entry wait) :
      SyncStep thread state (state.moved thread .idle)
  | callDelete {state : SyncState ι Value} {entry : Value} (here : state.point thread = .idle)
      (own : thread ∈ state.holders entry) :
      SyncStep thread state (state.moved thread (.deleteEntry entry))
  | deleteLock {state : SyncState ι Value} {entry : Value}
      (here : state.point thread = .deleteEntry entry) (free : state.mutex = none) :
      SyncStep thread state { state.moved thread (.deleteFind entry) with mutex := some thread }
  | deleteFind {state : SyncState ι Value} {entry : Value}
      (here : state.point thread = .deleteFind entry) :
      SyncStep thread state
        (state.moved thread (.deleteTest entry (decide (entry ∈ state.list))))
  | deleteMissing {state : SyncState ι Value} {entry : Value}
      (here : state.point thread = .deleteTest entry false) :
      SyncStep thread state (state.moved thread (.deleteUnlock false))
  | deleteErase {state : SyncState ι Value} {entry : Value}
      (here : state.point thread = .deleteTest entry true) :
      SyncStep thread state
        { state.moved thread .deleteBroadcast with
          list := state.list.erase entry
          holders := Function.update state.holders entry ((state.holders entry).erase thread) }
  | deleteBroadcast {state : SyncState ι Value}
      (here : state.point thread = .deleteBroadcast) :
      SyncStep thread state
        { state with
          point := Function.update (fun other => (state.point other).woken) thread
            (.deleteUnlock true) }
  | deleteUnlock {state : SyncState ι Value} {retCode : Bool}
      (here : state.point thread = .deleteUnlock retCode) :
      SyncStep thread state { state.moved thread (.deleteReturn retCode) with mutex := none }
  | deleteReturn {state : SyncState ι Value} {retCode : Bool}
      (here : state.point thread = .deleteReturn retCode) :
      SyncStep thread state (state.moved thread .idle)

/-- A state that the threads can come to from a new list. -/
def SyncState.Reachable (state : SyncState ι Value) : Prop :=
  Relation.ReflTransGen (fun before after => ∃ thread : ι, SyncStep thread before after)
    SyncState.new state

/-- What a thread knows at a point. -/
def SyncPoint.Knows (list : Finset Value) (holders : Value → List ι) (foundHeld : Bool)
    (thread : ι) : SyncPoint Value → Prop
  | .idle | .deleteBroadcast => True
  | .insertEntry _ => foundHeld = false
  | .insertFind _ wait => foundHeld = wait
  | .insertTest entry wait found => found = decide (entry ∈ list) ∧ foundHeld = (wait || found)
  | .condWait _ | .condWoken _ => foundHeld = true
  | .insertInsert entry wait => entry ∉ list ∧ foundHeld = wait
  | .insertUnlock entry wait | .insertReturn entry wait =>
      holders entry = [thread] ∧ foundHeld = wait
  | .deleteEntry entry | .deleteFind entry => holders entry = [thread]
  | .deleteTest entry found => holders entry = [thread] ∧ found = true
  | .deleteUnlock retCode | .deleteReturn retCode => retCode = true

/-- Values in the list have one holder, other values none. -/
def OneHolder (list : Finset Value) (holders : Value → List ι) : Prop :=
  ∀ entry, (entry ∈ list ∧ ∃ thread, holders entry = [thread]) ∨
    (entry ∉ list ∧ holders entry = [])

/-- The invariant: the record and the list agree, the mutex is kept, and every thread knows
what its point says. -/
structure SyncState.Orderly (state : SyncState ι Value) : Prop where
  held : OneHolder state.list state.holders
  exclusive : Exclusive state.point state.mutex
  known : ∀ thread,
    (state.point thread).Knows state.list state.holders (state.foundHeld thread) thread

section Pieces

variable {state : SyncState ι Value} {thread : ι} {point : SyncPoint Value}

omit [DecidableEq ι] in
/-- What a thread knows it goes on to know while the list stays as it is, or while it does
not have the mutex, and while what it holds stays with it. -/
theorem SyncPoint.Knows.frame {list other : Finset Value} {holders others : Value → List ι}
    {foundHeld : Bool} (knows : point.Knows list holders foundHeld thread)
    (sameList : point.InMutex = true → other = list)
    (kept : ∀ entry, holders entry = [thread] → others entry = [thread]) :
    point.Knows other others foundHeld thread := by
  cases point with
  | insertTest entry wait found =>
    rw [sameList rfl]
    exact knows
  | insertInsert entry wait =>
    rw [sameList rfl]
    exact knows
  | insertUnlock entry wait => exact ⟨kept entry knows.1, knows.2⟩
  | insertReturn entry wait => exact ⟨kept entry knows.1, knows.2⟩
  | deleteEntry entry => exact kept entry knows
  | deleteFind entry => exact kept entry knows
  | deleteTest entry found => exact ⟨kept entry knows.1, knows.2⟩
  | _ => exact knows

/-- A thread that only moves leaves the others what they know. -/
theorem known_moved {points : ι → SyncPoint Value} {list : Finset Value}
    {holders : Value → List ι} {foundHeld : ι → Bool}
    (known : ∀ thread, (points thread).Knows list holders (foundHeld thread) thread)
    (own : point.Knows list holders (foundHeld thread) thread) (other : ι) :
    (Function.update points thread point other).Knows list holders (foundHeld other) other := by
  by_cases same : other = thread
  · subst same
    rw [Function.update_self]
    exact own
  · rw [Function.update_of_ne same]
    exact known other

/-- So does a thread that records what it has found. -/
theorem known_recorded (known : ∀ thread, (state.point thread).Knows state.list state.holders
      (state.foundHeld thread) thread) {found : Bool}
    (own : point.Knows state.list state.holders found thread) (other : ι) :
    (Function.update state.point thread point other).Knows state.list state.holders
      (Function.update state.foundHeld thread found other) other := by
  by_cases same : other = thread
  · subst same
    rw [Function.update_self, Function.update_self]
    exact own
  · rw [Function.update_of_ne same, Function.update_of_ne same]
    exact known other

/-- And so does the thread that has the mutex when it changes the list, as long as it
touches no value of theirs. -/
theorem known_changed (orderly : state.Orderly) {list : Finset Value} {holders : Value → List ι}
    (inMutex : (state.point thread).InMutex = true)
    (own : point.Knows list holders (state.foundHeld thread) thread)
    (kept : ∀ other, other ≠ thread → ∀ entry, state.holders entry = [other] →
      holders entry = [other]) (other : ι) :
    (Function.update state.point thread point other).Knows list holders
      (state.foundHeld other) other := by
  by_cases same : other = thread
  · subst same
    rw [Function.update_self]
    exact own
  · rw [Function.update_of_ne same]
    apply (orderly.known other).frame
    · intro alsoIn
      have holder := (orderly.exclusive thread).mp inMutex
      rw [(orderly.exclusive other).mp alsoIn] at holder
      exact absurd (Option.some.inj holder) same
    · exact kept other same

omit [DecidableEq ι] in
/-- A value that is not in the list gets its holder. -/
theorem OneHolder.insert {list : Finset Value} {holders : Value → List ι} {entry : Value}
    (held : OneHolder list holders) (absent : entry ∉ list) :
    holders entry = [] ∧
      OneHolder (insert entry list)
        (Function.update holders entry (thread :: holders entry)) := by
  have free : holders entry = [] := by
    rcases held entry with ⟨listed, _⟩ | ⟨_, free⟩
    · exact absurd listed absent
    · exact free
  refine ⟨free, ?_⟩
  intro value
  by_cases same : value = entry
  · subst same
    rw [Function.update_self, free]
    exact Or.inl ⟨Finset.mem_insert_self _ _, thread, rfl⟩
  · rw [Function.update_of_ne same, Finset.mem_insert, or_iff_right same]
    exact held value

/-- A value that its holder deletes has none, and is not in the list. -/
theorem OneHolder.erase {list : Finset Value} {holders : Value → List ι} {entry : Value}
    (held : OneHolder list holders) (own : holders entry = [thread]) :
    OneHolder (list.erase entry)
      (Function.update holders entry ((holders entry).erase thread)) := by
  intro value
  by_cases same : value = entry
  · subst same
    rw [Function.update_self, own, List.erase_cons_head]
    exact Or.inr ⟨Finset.notMem_erase _ _, rfl⟩
  · rw [Function.update_of_ne same, Finset.mem_erase, and_iff_right same]
    exact held value

omit [DecidableEq ι] [DecidableEq Value] in
/-- The holder of a value finds it in the list. -/
theorem OneHolder.listed {list : Finset Value} {holders : Value → List ι} {entry : Value}
    (held : OneHolder list holders) (own : thread ∈ holders entry) :
    entry ∈ list ∧ holders entry = [thread] := by
  rcases held entry with ⟨listed, holder, one⟩ | ⟨_, free⟩
  · rw [one, List.mem_singleton] at own
    subst own
    exact ⟨listed, one⟩
  · rw [free] at own
    cases own

omit [DecidableEq ι] in
/-- A check finds a value just when somebody holds it. -/
theorem OneHolder.found {list : Finset Value} {holders : Value → List ι} (entry : Value)
    (held : OneHolder list holders) : (!(holders entry).isEmpty) = decide (entry ∈ list) := by
  rcases held entry with ⟨listed, holder, one⟩ | ⟨absent, free⟩
  · rw [one, decide_eq_true listed]
    rfl
  · rw [free, decide_eq_false absent]
    rfl

end Pieces

section Runs

variable {state next : SyncState ι Value} {thread : ι}

omit [DecidableEq ι] in
/-- Nobody holds or waits for an entry of a new list. -/
theorem SyncState.new_orderly : (SyncState.new : SyncState ι Value).Orderly where
  held _ := Or.inr ⟨Finset.notMem_empty _, rfl⟩
  exclusive _ := ⟨fun inside => Bool.noConfusion inside, fun taken => by cases taken⟩
  known _ := trivial

/-- Every statement keeps the invariant. The threads that are woken know what they knew while they
waited. -/
theorem SyncState.Orderly.step (orderly : state.Orderly) (step : SyncStep thread state next) :
    next.Orderly := by
  obtain ⟨held, exclusive, known⟩ := orderly
  have orderly : state.Orderly := ⟨held, exclusive, known⟩
  have knows := known thread
  cases step with
  | callInsert entry here =>
    exact ⟨held, exclusive.move (by rw [here]; rfl), known_recorded known rfl⟩
  | insertLock here free =>
    rw [here] at knows
    rw [free] at exclusive
    exact ⟨held, exclusive.lock rfl, known_moved known knows⟩
  | insertFind here =>
    rename_i entry wait
    rw [here] at knows
    refine ⟨held, exclusive.move (by rw [here]; rfl), known_recorded known ⟨rfl, ?_⟩⟩
    have waited : state.foundHeld thread = wait := knows
    rw [waited, held.found entry]
  | insertWait here =>
    rename_i entry wait
    rw [here] at knows
    refine ⟨held, exclusive.unlock (by rw [here]; rfl) rfl, known_moved known ?_⟩
    exact knows.2.trans (Bool.or_true wait)
  | insertPast here =>
    rename_i entry wait
    rw [here] at knows
    refine ⟨held, exclusive.move (by rw [here]; rfl), known_moved known ⟨?_, ?_⟩⟩
    · exact of_decide_eq_false knows.1.symm
    · exact knows.2.trans (Bool.or_false wait)
  | wake here =>
    rw [here] at knows
    exact ⟨held, exclusive.move (by rw [here]; rfl), known_moved known knows⟩
  | wokenLock here free =>
    rw [here] at knows
    rw [free] at exclusive
    exact ⟨held, exclusive.lock rfl, known_moved known knows⟩
  | insertInsert here =>
    rename_i entry wait
    rw [here] at knows
    obtain ⟨free, heldAfter⟩ := @OneHolder.insert _ _ _ thread _ _ entry held knows.1
    have inMutex : (state.point thread).InMutex = true := by rw [here]; rfl
    refine ⟨heldAfter, exclusive.move (by rw [here]; rfl), ?_⟩
    apply known_changed orderly inMutex
    · refine ⟨?_, knows.2⟩
      change Function.update state.holders entry _ entry = [thread]
      rw [Function.update_self, free]
    · intro other apart value own
      change Function.update state.holders entry _ value = [other]
      rw [Function.update_of_ne, own]
      rintro rfl
      rw [free] at own
      cases own
  | insertUnlock here =>
    rw [here] at knows
    exact ⟨held, exclusive.unlock (by rw [here]; rfl) rfl, known_moved known knows⟩
  | insertReturn here =>
    exact ⟨held, exclusive.move (by rw [here]; rfl), known_moved known trivial⟩
  | callDelete here own =>
    exact ⟨held, exclusive.move (by rw [here]; rfl), known_moved known (held.listed own).2⟩
  | deleteLock here free =>
    rw [here] at knows
    rw [free] at exclusive
    exact ⟨held, exclusive.lock rfl, known_moved known knows⟩
  | deleteFind here =>
    rename_i entry
    rw [here] at knows
    have own : state.holders entry = [thread] := knows
    have listed := (held.listed (own ▸ List.mem_singleton_self thread)).1
    exact ⟨held, exclusive.move (by rw [here]; rfl),
      known_moved known ⟨own, decide_eq_true listed⟩⟩
  | deleteMissing here =>
    rw [here] at knows
    exact Bool.noConfusion knows.2
  | deleteErase here =>
    rename_i entry
    rw [here] at knows
    have inMutex : (state.point thread).InMutex = true := by rw [here]; rfl
    refine ⟨held.erase knows.1, exclusive.move (by rw [here]; rfl), ?_⟩
    apply known_changed orderly inMutex
    · trivial
    · intro other apart value own
      change Function.update state.holders entry _ value = [other]
      rw [Function.update_of_ne, own]
      rintro rfl
      rw [knows.1] at own
      exact apart (List.cons.inj own).1.symm
  | deleteBroadcast here =>
    have woken : ∀ other, (state.point other).woken.InMutex = (state.point other).InMutex := by
      intro other
      cases state.point other <;> rfl
    have exclusiveWoken : Exclusive (fun other => (state.point other).woken) state.mutex := by
      intro other
      rw [woken other]
      exact exclusive other
    have knownWoken : ∀ other, (state.point other).woken.Knows state.list state.holders
        (state.foundHeld other) other := by
      intro other
      have knew := known other
      cases placed : state.point other <;> rw [placed] at knew <;> exact knew
    exact ⟨held, exclusiveWoken.move (by rw [woken thread, here]; rfl),
      known_moved knownWoken rfl⟩
  | deleteUnlock here =>
    rw [here] at knows
    exact ⟨held, exclusive.unlock (by rw [here]; rfl) rfl, known_moved known knows⟩
  | deleteReturn here =>
    exact ⟨held, exclusive.move (by rw [here]; rfl), known_moved known trivial⟩

/-- So the invariant holds in every state that the threads come to. -/
theorem SyncState.Reachable.orderly (reachable : state.Reachable) : state.Orderly := by
  induction reachable with
  | refl => exact SyncState.new_orderly
  | tail _ step inductionHypothesis =>
    obtain ⟨thread, step⟩ := step
    exact inductionHypothesis.step step

/-- Who holds a value, as the store's model of the list has it. -/
def SyncState.owner (state : SyncState ι Value) (entry : Value) : Option ι :=
  (state.holders entry).head?

/-- Where the store asks the list, it is answered as these statements do: a statement
changes nothing that the store sees, or it is the insertion of a call that did not wait, the
insertion of one that did, or the deletion. -/
theorem SyncStep.answers {before after : SyncState ι Nat} (orderly : before.Orderly)
    (step : SyncStep thread before after) (store : NvmKvStore) (shared : StoreState ι)
    (same : shared.safeLbaList = before.owner) :
    after.owner = shared.safeLbaList ∨
      ∃ lba,
        answer store thread (.checkEntry lba) shared =
          some (true, { shared with safeLbaList := after.owner }) ∨
        answer store thread (.awaitEntry lba) shared =
          some ((), { shared with safeLbaList := after.owner }) ∨
        answer store thread (.deleteEntry lba) shared =
          some (true, { shared with safeLbaList := after.owner }) := by
  have knows := orderly.known thread
  cases step with
  | insertInsert here =>
    rename_i entry wait
    rw [here] at knows
    have free := (@OneHolder.insert _ _ _ thread _ _ entry orderly.held knows.1).1
    have unowned : shared.safeLbaList entry = none := by
      rw [same, SyncState.owner, free]
      rfl
    have owners : SyncState.owner
        { before.moved thread (.insertUnlock entry wait) with
          list := insert entry before.list
          holders := Function.update before.holders entry (thread :: before.holders entry) } =
        Function.update shared.safeLbaList entry (some thread) := by
      funext value
      rw [same]
      by_cases own : value = entry
      · subst own
        simp [SyncState.owner]
      · simp [SyncState.owner, own]
    rw [owners]
    refine Or.inr ⟨entry, ?_⟩
    cases wait with
    | false =>
      apply Or.inl
      simp only [answer, unowned, Option.isNone_none, if_true]
    | true =>
      apply Or.inr (Or.inl ?_)
      simp only [answer, unowned, Option.isNone_none, if_true]
  | deleteErase here =>
    rename_i entry
    rw [here] at knows
    have owned : shared.safeLbaList entry = some thread := by
      rw [same, SyncState.owner, knows.1]
      rfl
    have owners : SyncState.owner
        { before.moved thread .deleteBroadcast with
          list := before.list.erase entry
          holders := Function.update before.holders entry
            ((before.holders entry).erase thread) } =
        Function.update shared.safeLbaList entry none := by
      funext value
      rw [same]
      by_cases own : value = entry
      · subst own
        simp [SyncState.owner, knows.1]
      · simp [SyncState.owner, own]
    rw [owners]
    refine Or.inr ⟨entry, Or.inr (Or.inr ?_)⟩
    simp only [answer, owned, Option.isSome_some]
  | _ => exact Or.inl same.symm

end Runs

/-- The list is a table of locks: a value in it is held by one thread, other values by none;
a call that inserts returns only while its thread alone holds the value, and says that it
waited just when one of its checks found the value held; a call that deletes what its thread
holds says that it did. -/
theorem sync_list_locks {state : SyncState ι Value} (reachable : state.Reachable) :
    (∀ entry ∈ state.list, ∃ thread, state.holders entry = [thread]) ∧
    (∀ entry, entry ∉ state.list → state.holders entry = []) ∧
    (∀ thread entry wait, state.point thread = .insertReturn entry wait →
      (∀ other, other ∈ state.holders entry ↔ other = thread) ∧
      (wait = true ↔ state.foundHeld thread = true)) ∧
    ∀ thread retCode, state.point thread = .deleteReturn retCode → retCode = true := by
  have orderly := reachable.orderly
  refine ⟨?_, ?_, ?_, ?_⟩
  · intro entry listed
    rcases orderly.held entry with ⟨_, one⟩ | ⟨absent, _⟩
    · exact one
    · exact absurd listed absent
  · intro entry absent
    rcases orderly.held entry with ⟨listed, _⟩ | ⟨_, free⟩
    · exact absurd listed absent
    · exact free
  · intro thread entry wait returns
    have knows := orderly.known thread
    rw [returns] at knows
    obtain ⟨own, waited⟩ := knows
    constructor
    · intro other
      rw [own, List.mem_singleton]
    · rw [waited]
  · intro thread retCode returns
    have knows := orderly.known thread
    rw [returns] at knows
    exact knows

/-- One thread inserts a value, another one waits for it, the first deletes it, and the
other gets it. -/
theorem sync_list_locks_waited :
    ∃ state : SyncState Bool UInt64, state.point true = .insertReturn 7 true ∧
      (∀ other, other ∈ state.holders 7 ↔ other = true) ∧ state.foundHeld true = true := by
  have begun : (SyncState.new : SyncState Bool UInt64).Reachable := Relation.ReflTransGen.refl
  have inserted := ((((((begun.tail ⟨false, .callInsert 7 rfl⟩).tail
    ⟨false, .insertLock rfl rfl⟩).tail ⟨false, .insertFind rfl⟩).tail
    ⟨false, .insertPast rfl⟩).tail ⟨false, .insertInsert rfl⟩).tail
    ⟨false, .insertUnlock rfl⟩).tail ⟨false, .insertReturn rfl⟩
  have waits := (((inserted.tail ⟨true, .callInsert 7 rfl⟩).tail ⟨true, .insertLock rfl rfl⟩).tail
    ⟨true, .insertFind rfl⟩).tail ⟨true, .insertWait rfl⟩
  have deleted := (((((waits.tail ⟨false, .callDelete rfl List.mem_cons_self⟩).tail
    ⟨false, .deleteLock rfl rfl⟩).tail ⟨false, .deleteFind rfl⟩).tail
    ⟨false, @SyncStep.deleteErase _ _ _ _ false _ 7 rfl⟩).tail ⟨false, .deleteBroadcast rfl⟩).tail
    ⟨false, .deleteUnlock rfl⟩
  have reached := ((((deleted.tail ⟨true, .wokenLock rfl rfl⟩).tail
    ⟨true, .insertFind rfl⟩).tail ⟨true, .insertPast rfl⟩).tail
    ⟨true, .insertInsert rfl⟩).tail ⟨true, .insertUnlock rfl⟩
  have locks := (sync_list_locks reached).2.2.1 true 7 true rfl
  exact ⟨_, rfl, locks.1, locks.2.mp rfl⟩

end Nvmkv
