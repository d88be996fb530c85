import Mathlib.Data.Set.Finite.Lemmas
import Mathlib.Logic.Function.Basic
import Mathlib.Logic.Relation
import Nvmkv.Programs

/-!
# Mutexes with condition variables

Threads that run for ever are written as code by places: what a thread does next is told by
the place where it stands, and a place may carry data. Besides calls on a shared world, a
thread takes and releases mutexes, waits on the condition variable of a mutex, which
releases the mutex in the same step, and wakes one or all that wait on one. A thread that
waits makes no step until it is woken; it may wake up for no reason, as the wait of a
condition variable may.

A plan says of each place which mutexes a thread holds there, what it knows of the world, and
for which condition variables it may still owe a broadcast; and of a place where a thread may
be asleep, what it waits for. Every instruction has to keep the plan: a mutex is released
only when no broadcast on it is owed, a thread waits only for what does not hold, a call that
makes true what somebody may wait for holds the mutex and owes the broadcast from there on,
and what a thread knows is not falsified by calls made under other mutexes. To wake one
sleeper only pays nothing.

Then no wake-up is lost: in every reachable state, a thread is asleep although what it waits
for holds only while another one holds the mutex and is about to broadcast. If mutexes are
taken in the order of their ranks as well, threads are stopped by calls of the world only:
when nobody can make a step, and nobody has a mutex while its call is not answered, all
mutexes are free and whoever has not ended waits for an answer or for what does not hold.
-/

namespace Nvmkv

variable {κ ι ℓ σ Op : Type} {Res : Op → Type}

/-- What a thread does at a place, and the place where it goes on. -/
inductive Instruction (κ : Type) (Op : Type) (Res : Op → Type) (ℓ : Type) where
  | lock (mutex : κ) (next : ℓ)
  | unlock (mutex : κ) (next : ℓ)
  | wait (mutex : κ) (next : ℓ)
  | broadcast (mutex : κ) (next : ℓ)
  | signal (mutex : κ) (next : ℓ)
  | call (op : Op) (next : Res op → ℓ)
  | ended

/-- The shared world, the owners of the mutexes, the mutexes on whose condition variables
threads sleep, and the place of each thread. -/
structure Monitored (κ ι ℓ σ : Type) where
  world : σ
  owner : κ → Option ι
  asleep : ι → Option κ
  place : ι → ℓ

namespace Monitored

variable [DecidableEq κ] [DecidableEq ι]

/-- A thread moves to a place. -/
def goes (state : Monitored κ ι ℓ σ) (thread : ι) (next : ℓ) : Monitored κ ι ℓ σ :=
  { state with place := Function.update state.place thread next }

/-- A mutex gets an owner, or none. -/
def gives (state : Monitored κ ι ℓ σ) (mutex : κ) (owner : Option ι) : Monitored κ ι ℓ σ :=
  { state with owner := Function.update state.owner mutex owner }

/-- All that sleep on the condition variable of a mutex wake up. -/
def wakes (state : Monitored κ ι ℓ σ) (mutex : κ) : Monitored κ ι ℓ σ :=
  { state with asleep := fun thread =>
      if state.asleep thread = some mutex then none else state.asleep thread }

/-- A thread falls asleep on the condition variable of a mutex. -/
def sleeps (state : Monitored κ ι ℓ σ) (thread : ι) (mutex : κ) : Monitored κ ι ℓ σ :=
  { state with asleep := Function.update state.asleep thread (some mutex) }

/-- One thread wakes up, or nobody does. -/
def rouses (state : Monitored κ ι ℓ σ) (sleeper : Option ι) : Monitored κ ι ℓ σ :=
  { state with asleep := fun thread =>
      if sleeper = some thread then none else state.asleep thread }

section Fields

variable (state : Monitored κ ι ℓ σ) (thread : ι) (mutex : κ) (next : ℓ)

omit [DecidableEq κ] in
/-- A thread that goes on changes nothing of the world. -/
@[simp] theorem goes_world : (state.goes thread next).world = state.world := rfl

omit [DecidableEq κ] in
/-- Nor the owner of a mutex. -/
@[simp] theorem goes_owner : (state.goes thread next).owner = state.owner := rfl

omit [DecidableEq κ] in
/-- Nor who sleeps. -/
@[simp] theorem goes_asleep : (state.goes thread next).asleep = state.asleep := rfl

omit [DecidableEq κ] in
/-- It is at its next place then. -/
@[simp] theorem goes_self : (state.goes thread next).place thread = next := by
  simp [goes]

omit [DecidableEq κ] in
/-- The others stay where they are. -/
theorem goes_of_ne {other : ι} (differ : other ≠ thread) :
    (state.goes thread next).place other = state.place other := by
  simp [goes, differ]

variable (owner : Option ι)

omit [DecidableEq ι] in
/-- A mutex that changes its owner changes nothing of the world. -/
@[simp] theorem gives_world : (state.gives mutex owner).world = state.world := rfl

omit [DecidableEq ι] in
/-- Nor who sleeps. -/
@[simp] theorem gives_asleep : (state.gives mutex owner).asleep = state.asleep := rfl

omit [DecidableEq ι] in
/-- Nor where a thread is. -/
@[simp] theorem gives_place : (state.gives mutex owner).place = state.place := rfl

omit [DecidableEq ι] in
/-- It has the new owner then. -/
@[simp] theorem gives_self : (state.gives mutex owner).owner mutex = owner := by
  simp [gives]

omit [DecidableEq ι] in
/-- The other mutexes keep theirs. -/
theorem gives_of_ne {other : κ} (differ : other ≠ mutex) :
    (state.gives mutex owner).owner other = state.owner other := by
  simp [gives, differ]

omit [DecidableEq ι] in
/-- Waking threads changes nothing of the world. -/
@[simp] theorem wakes_world : (state.wakes mutex).world = state.world := rfl

omit [DecidableEq ι] in
/-- Who sleeps after all of a mutex are woken slept before, on another mutex. -/
theorem wakes_asleep {state : Monitored κ ι ℓ σ} {thread : ι} {mutex other : κ} :
    (state.wakes mutex).asleep thread = some other ↔
      other ≠ mutex ∧ state.asleep thread = some other := by
  rw [wakes]
  dsimp only
  split_ifs with slept
  · constructor
    · intro impossible
      cases impossible
    · rintro ⟨differ, also⟩
      exact absurd (Option.some.inj (also.symm.trans slept)) differ
  · constructor
    · intro also
      refine ⟨?_, also⟩
      rintro rfl
      exact slept also
    · exact fun both => both.2

omit [DecidableEq ι] in
/-- So nobody falls asleep by it. -/
theorem wakes_before {state : Monitored κ ι ℓ σ} {thread : ι} {mutex other : κ}
    (sleeps : (state.wakes mutex).asleep thread = some other) :
    state.asleep thread = some other := (wakes_asleep.mp sleeps).2

omit [DecidableEq κ] in
/-- A thread that falls asleep changes no owner. -/
@[simp] theorem sleeps_owner : (state.sleeps thread mutex).owner = state.owner := rfl

omit [DecidableEq κ] in
/-- It sleeps on its mutex then. -/
@[simp] theorem sleeps_self : (state.sleeps thread mutex).asleep thread = some mutex := by
  simp [sleeps]

omit [DecidableEq κ] in
/-- The others sleep or do not as before. -/
theorem sleeps_of_ne {other : ι} (differ : other ≠ thread) :
    (state.sleeps thread mutex).asleep other = state.asleep other := by
  simp [sleeps, differ]

omit [DecidableEq κ] in
/-- Nobody falls asleep when one is woken. -/
theorem rouses_before {state : Monitored κ ι ℓ σ} {sleeper : Option ι} {thread : ι} {other : κ}
    (sleeps : (state.rouses sleeper).asleep thread = some other) :
    state.asleep thread = some other := by
  rw [rouses] at sleeps
  dsimp only at sleeps
  split_ifs at sleeps
  exact sleeps

end Fields

/-- A thread that is awake does what its place says. A mutex that has an owner is not taken,
and a call that is not answered is not left. -/
inductive Moves (code : ι → ℓ → Instruction κ Op Res ℓ) (handle : ι → Program.Handler Op Res σ)
    (thread : ι) (state : Monitored κ ι ℓ σ) : Monitored κ ι ℓ σ → Prop
  | locked {mutex : κ} {next : ℓ} (awake : state.asleep thread = none)
      (here : code thread (state.place thread) = .lock mutex next)
      (free : state.owner mutex = none) :
      Moves code handle thread state ((state.gives mutex (some thread)).goes thread next)
  | unlocked {mutex : κ} {next : ℓ} (awake : state.asleep thread = none)
      (here : code thread (state.place thread) = .unlock mutex next) :
      Moves code handle thread state ((state.gives mutex none).goes thread next)
  | waited {mutex : κ} {next : ℓ} (awake : state.asleep thread = none)
      (here : code thread (state.place thread) = .wait mutex next) :
      Moves code handle thread state
        (((state.gives mutex none).sleeps thread mutex).goes thread next)
  | broadcasted {mutex : κ} {next : ℓ} (awake : state.asleep thread = none)
      (here : code thread (state.place thread) = .broadcast mutex next) :
      Moves code handle thread state ((state.wakes mutex).goes thread next)
  | signalled {mutex : κ} {next : ℓ} {sleeper : ι} (awake : state.asleep thread = none)
      (here : code thread (state.place thread) = .signal mutex next)
      (asleep : state.asleep sleeper = some mutex) :
      Moves code handle thread state ((state.rouses (some sleeper)).goes thread next)
  | unheard {mutex : κ} {next : ℓ} (awake : state.asleep thread = none)
      (here : code thread (state.place thread) = .signal mutex next)
      (nobody : ∀ other, state.asleep other ≠ some mutex) :
      Moves code handle thread state ((state.rouses none).goes thread next)
  | answered {op : Op} {next : Res op → ℓ} {answer : Res op} {after : σ}
      (awake : state.asleep thread = none)
      (here : code thread (state.place thread) = .call op next)
      (reply : handle thread op state.world = some (answer, after)) :
      Moves code handle thread state ({ state with world := after }.goes thread (next answer))

section Inversion

variable {code : ι → ℓ → Instruction κ Op Res ℓ} {handle : ι → Program.Handler Op Res σ}
  {thread : ι} {state next : Monitored κ ι ℓ σ} {mutex : κ} {place : ℓ}

/-- A thread that locks has found the mutex free, and owns it. -/
theorem Moves.at_lock (moves : Moves code handle thread state next)
    (there : code thread (state.place thread) = .lock mutex place) :
    state.owner mutex = none ∧ next = (state.gives mutex (some thread)).goes thread place := by
  cases moves with
  | locked awake here free =>
    cases here.symm.trans there
    exact ⟨free, rfl⟩
  | unlocked awake here | waited awake here | broadcasted awake here | signalled awake here _
  | unheard awake here _ | answered awake here _ => cases here.symm.trans there

/-- A thread that unlocks leaves the mutex without an owner. -/
theorem Moves.at_unlock (moves : Moves code handle thread state next)
    (there : code thread (state.place thread) = .unlock mutex place) :
    next = (state.gives mutex none).goes thread place := by
  cases moves with
  | unlocked awake here =>
    cases here.symm.trans there
    rfl
  | locked awake here _ | waited awake here | broadcasted awake here | signalled awake here _
  | unheard awake here _ | answered awake here _ => cases here.symm.trans there

/-- A thread that waits leaves the mutex without an owner and sleeps. -/
theorem Moves.at_wait (moves : Moves code handle thread state next)
    (there : code thread (state.place thread) = .wait mutex place) :
    next = ((state.gives mutex none).sleeps thread mutex).goes thread place := by
  cases moves with
  | waited awake here =>
    cases here.symm.trans there
    rfl
  | locked awake here _ | unlocked awake here | broadcasted awake here | signalled awake here _
  | unheard awake here _ | answered awake here _ => cases here.symm.trans there

/-- A signal wakes one sleeper of the mutex, or there is none. -/
theorem Moves.at_signal (moves : Moves code handle thread state next)
    (there : code thread (state.place thread) = .signal mutex place) :
    ∃ sleeper, next = (state.rouses sleeper).goes thread place ∧
      (∀ other, sleeper = some other → state.asleep other = some mutex) ∧
      (sleeper = none → ∀ other, state.asleep other ≠ some mutex) := by
  cases moves with
  | @signalled _ _ sleeper awake here asleep =>
    cases here.symm.trans there
    refine ⟨some sleeper, rfl, ?_, fun absent => (by cases absent)⟩
    rintro other same
    cases same
    exact asleep
  | unheard awake here nobody =>
    cases here.symm.trans there
    exact ⟨none, rfl, fun _ absent => (by cases absent), fun _ => nobody⟩
  | locked awake here _ | unlocked awake here | waited awake here | broadcasted awake here
  | answered awake here _ => cases here.symm.trans there

/-- A call does to the world what the machine answers. -/
theorem Moves.at_call {op : Op} {further : Res op → ℓ}
    (moves : Moves code handle thread state next)
    (there : code thread (state.place thread) = .call op further) :
    ∃ answer after, handle thread op state.world = some (answer, after) ∧
      next = { state with world := after }.goes thread (further answer) := by
  cases moves with
  | answered awake here reply =>
    cases here.symm.trans there
    exact ⟨_, _, reply, rfl⟩
  | locked awake here _ | unlocked awake here | waited awake here | broadcasted awake here
  | signalled awake here _ | unheard awake here _ => cases here.symm.trans there

/-- A thread that has ended does not move. -/
theorem Moves.at_end (moves : Moves code handle thread state next) :
    code thread (state.place thread) ≠ .ended := by
  intro there
  cases moves with
  | locked awake here _ | unlocked awake here | waited awake here | broadcasted awake here
  | signalled awake here _ | unheard awake here _ | answered awake here _ =>
    cases here.symm.trans there

/-- A thread moves while it is awake, and the others stay where they are. -/
theorem Moves.awake (moves : Moves code handle thread state next) :
    state.asleep thread = none ∧
      ∀ other, other ≠ thread → next.place other = state.place other := by
  cases moves with
  | locked awake _ _ | unlocked awake _ | waited awake _ | broadcasted awake _
  | signalled awake _ _ | unheard awake _ _ | answered awake _ _ =>
    exact ⟨awake, fun other differ => goes_of_ne _ _ _ differ⟩

end Inversion

/-- A step of the system: a thread moves, or wakes up without being woken. -/
inductive Step (code : ι → ℓ → Instruction κ Op Res ℓ) (handle : ι → Program.Handler Op Res σ)
    (state : Monitored κ ι ℓ σ) : Monitored κ ι ℓ σ → Prop
  | moved {thread : ι} {next : Monitored κ ι ℓ σ} (moves : Moves code handle thread state next) :
      Step code handle state next
  | roused (thread : ι) : Step code handle state (state.rouses (some thread))

/-- The states of all interleavings. -/
abbrev Reachable (code : ι → ℓ → Instruction κ Op Res ℓ) (handle : ι → Program.Handler Op Res σ) :
    Monitored κ ι ℓ σ → Monitored κ ι ℓ σ → Prop :=
  Relation.ReflTransGen (Step code handle)

/-- No thread can move. -/
def Still (code : ι → ℓ → Instruction κ Op Res ℓ) (handle : ι → Program.Handler Op Res σ)
    (state : Monitored κ ι ℓ σ) : Prop :=
  ∀ thread next, ¬Moves code handle thread state next

/-- A thread is at a call that the world does not answer. -/
def Unanswered (code : ι → ℓ → Instruction κ Op Res ℓ) (handle : ι → Program.Handler Op Res σ)
    (state : Monitored κ ι ℓ σ) (thread : ι) : Prop :=
  ∃ op next, code thread (state.place thread) = .call op next ∧
    handle thread op state.world = none

/-- The world, with nobody in a monitor. -/
def start (world : σ) (place : ι → ℓ) : Monitored κ ι ℓ σ where
  world := world
  owner := fun _ => none
  asleep := fun _ => none
  place := place

end Monitored

/-- What holds at the places of some threads. A thread may be asleep on a condition variable
only where `sleeps` says so, and then waits for what is `wanted` there. -/
structure MonitorPlan (κ ι ℓ σ : Type) where
  rank : κ → Nat
  holds : ℓ → Set κ
  owes : ℓ → Set κ
  sleeps : ℓ → Set κ
  wanted : ℓ → σ → Prop
  invariant : σ → Prop
  knows : ι → ℓ → σ → Prop

namespace MonitorPlan

variable (plan : MonitorPlan κ ι ℓ σ)

/-- What an answered call may do: whoever brings about what is wanted holds the mutex and owes
the broadcast, and others do not lose what they know unless the mutexes keep them away. -/
structure Allows (thread : ι) (place next : ℓ) (before after : σ) : Prop where
  holds : plan.holds next = plan.holds place
  owes : plan.owes place ⊆ plan.owes next
  invariant : plan.invariant after
  knows : plan.knows thread next after
  raised : ∀ mutex elsewhere, mutex ∈ plan.sleeps elsewhere → plan.wanted elsewhere after →
    ¬plan.wanted elsewhere before → mutex ∈ plan.holds place ∧ mutex ∈ plan.owes next
  others : ∀ other, other ≠ thread → ∀ elsewhere,
    (∀ mutex ∈ plan.holds place, mutex ∉ plan.holds elsewhere) →
      plan.knows other elsewhere before → plan.knows other elsewhere after

/-- What a thread knows at a place, it knows at the next one. -/
def Passes (thread : ι) (place next : ℓ) : Prop :=
  ∀ world, plan.invariant world → plan.knows thread place world → plan.knows thread next world

/-- An instruction keeps the plan. -/
def Obeys (handle : ι → Program.Handler Op Res σ) (thread : ι) (place : ℓ) :
    Instruction κ Op Res ℓ → Prop
  | .lock mutex next => (∀ held ∈ plan.holds place, plan.rank held < plan.rank mutex) ∧
      plan.holds next = insert mutex (plan.holds place) ∧ plan.owes place ⊆ plan.owes next ∧
      plan.Passes thread place next
  | .unlock mutex next => mutex ∈ plan.holds place ∧ mutex ∉ plan.owes place ∧
      plan.holds next = plan.holds place \ {mutex} ∧ plan.owes place ⊆ plan.owes next ∧
      plan.Passes thread place next
  | .wait mutex next => plan.holds place = {mutex} ∧ mutex ∉ plan.owes place ∧
      plan.holds next = ∅ ∧ mutex ∈ plan.sleeps next ∧ plan.Passes thread place next ∧
      ∀ world, plan.invariant world → plan.knows thread place world → ¬plan.wanted next world
  | .broadcast mutex next => plan.holds next = plan.holds place ∧
      plan.owes place \ {mutex} ⊆ plan.owes next ∧ plan.Passes thread place next
  | .signal _ next => plan.holds next = plan.holds place ∧ plan.owes place ⊆ plan.owes next ∧
      plan.Passes thread place next
  | .call op next => ∀ before answer after, plan.invariant before →
      plan.knows thread place before → handle thread op before = some (answer, after) →
        plan.Allows thread place (next answer) before after
  | .ended => plan.holds place = ∅

/-- What holds of every reachable state. -/
structure Sound (state : Monitored κ ι ℓ σ) : Prop where
  invariant : plan.invariant state.world
  owner : ∀ thread mutex, state.owner mutex = some thread ↔
    mutex ∈ plan.holds (state.place thread)
  knows : ∀ thread, plan.knows thread (state.place thread) state.world
  sleeping : ∀ thread mutex, state.asleep thread = some mutex →
    mutex ∈ plan.sleeps (state.place thread) ∧ plan.holds (state.place thread) = ∅
  unready : ∀ thread mutex, state.asleep thread = some mutex →
    (∀ holder, state.owner mutex = some holder → mutex ∉ plan.owes (state.place holder)) →
      ¬plan.wanted (state.place thread) state.world

variable {plan}

/-- A thread has one place at a time, so that two threads do not hold one mutex. -/
theorem Sound.exclusive {state : Monitored κ ι ℓ σ} (sound : plan.Sound state) {first second : ι}
    {mutex : κ} (holds : mutex ∈ plan.holds (state.place first))
    (also : mutex ∈ plan.holds (state.place second)) : first = second := by
  have owned := (sound.owner first mutex).mpr holds
  have same := (sound.owner second mutex).mpr also
  rw [owned] at same
  exact Option.some.inj same

/-- The mutexes of two threads have none in common. -/
theorem Sound.disjoint {state : Monitored κ ι ℓ σ} (sound : plan.Sound state) {first second : ι}
    (differ : first ≠ second) :
    ∀ mutex ∈ plan.holds (state.place first), mutex ∉ plan.holds (state.place second) := by
  intro mutex holds also
  exact differ (sound.exclusive holds also)

/-- While a mutex is free, nobody sleeps although what it waits for holds. -/
theorem Sound.none_missed {state : Monitored κ ι ℓ σ} (sound : plan.Sound state) {thread : ι}
    {mutex : κ} (free : state.owner mutex = none) (sleeps : state.asleep thread = some mutex) :
    ¬plan.wanted (state.place thread) state.world := by
  apply sound.unready thread mutex sleeps
  intro holder owned
  rw [free] at owned
  cases owned

/-- A start: nobody is in a monitor, and every thread knows what its first place asks for. -/
theorem Sound.start {world : σ} {place : ι → ℓ} (invariant : plan.invariant world)
    (empty : ∀ thread, plan.holds (place thread) = ∅)
    (knows : ∀ thread, plan.knows thread (place thread) world) :
    plan.Sound (Monitored.start world place) where
  invariant := invariant
  owner := by
    intro thread mutex
    simp [Monitored.start, empty thread]
  knows := knows
  sleeping := by
    intro thread mutex sleeps
    cases sleeps
  unready := by
    intro thread mutex sleeps
    cases sleeps

section Steps

variable [DecidableEq κ] [DecidableEq ι] {handle : ι → Program.Handler Op Res σ}
  {state : Monitored κ ι ℓ σ} {thread : ι} {mutex : κ} {next : ℓ}

open Monitored

omit [DecidableEq κ] in
/-- What holds of the mover at its new place and of the others where they stand. -/
theorem goes_all (fact : ι → ℓ → Prop) (here : fact thread next)
    (others : ∀ other, other ≠ thread → fact other (state.place other)) (other : ι) :
    fact other ((state.goes thread next).place other) := by
  by_cases same : other = thread
  · subst same
    rw [goes_self]
    exact here
  · rw [goes_of_ne _ _ _ same]
    exact others other same

omit [DecidableEq κ] in
/-- Where the mover goes on owing, nobody owed what nobody owes now. -/
theorem silent_before {holder : ι} {other : κ}
    (keeps : other ∈ plan.owes (state.place thread) → other ∈ plan.owes next)
    (silent : other ∉ plan.owes ((state.goes thread next).place holder)) :
    other ∉ plan.owes (state.place holder) := by
  by_cases same : holder = thread
  · subst same
    rw [goes_self] at silent
    exact fun owes => silent (keeps owes)
  · rwa [goes_of_ne _ _ _ same] at silent

omit [DecidableEq κ] in
/-- While an awake thread moves, and wakes some others perhaps, those asleep stay where they
are. -/
theorem still_asleep (among : Monitored κ ι ℓ σ) (awake : state.asleep thread = none)
    (places : among.place = state.place)
    (slept : ∀ sleeper other, among.asleep sleeper = some other →
      state.asleep sleeper = some other)
    {sleeper : ι} {other : κ} (sleeps : (among.goes thread next).asleep sleeper = some other) :
    (among.goes thread next).place sleeper = state.place sleeper ∧
      state.asleep sleeper = some other := by
  have before := slept sleeper other sleeps
  refine ⟨?_, before⟩
  rw [goes_of_ne, places]
  rintro rfl
  rw [awake] at before
  cases before

omit [DecidableEq ι] in
/-- A thread that gets a mutex, or loses it, is the only one whose mutexes change. -/
theorem gives_owner {owner : Option ι} (sound : plan.Sound state)
    (among : ∀ other, other ≠ thread → (state.owner mutex = some other ↔ owner = some other))
    {other : ι} (differ : other ≠ thread) (held : κ) :
    (state.gives mutex owner).owner held = some other ↔ held ∈ plan.holds (state.place other) := by
  rw [← sound.owner other held]
  by_cases same : held = mutex
  · subst same
    rw [gives_self]
    exact (among other differ).symm
  · rw [gives_of_ne _ _ _ same]

/-- A thread takes a mutex, on which nobody owed a broadcast. -/
theorem Sound.locked (sound : plan.Sound state) (awake : state.asleep thread = none)
    (free : state.owner mutex = none)
    (obeys : plan.Obeys handle thread (state.place thread)
      (.lock mutex next : Instruction κ Op Res ℓ)) :
    plan.Sound ((state.gives mutex (some thread)).goes thread next) := by
  obtain ⟨above, held, owes, passes⟩ := obeys
  have known := passes state.world sound.invariant (sound.knows thread)
  constructor
  · exact sound.invariant
  · refine goes_all (fun other place => ∀ held, (state.gives mutex (some thread)).owner held =
      some other ↔ held ∈ plan.holds place) ?_ ?_
    · intro other
      rw [held, Set.mem_insert_iff, ← sound.owner thread other]
      by_cases same : other = mutex
      · simp [same]
      · simp [gives_of_ne _ _ _ same, same]
    · intro other differ
      refine gives_owner sound ?_ differ
      intro another apart
      simp [free, apart.symm]
  · exact goes_all (fun other place => plan.knows other place state.world) known
      fun other _ => sound.knows other
  · intro sleeper other sleeps
    obtain ⟨same, slept⟩ := still_asleep (state.gives mutex (some thread)) awake rfl
      (fun _ _ sleeps => sleeps) sleeps
    rw [same]
    exact sound.sleeping sleeper other slept
  · intro sleeper other sleeps silent
    obtain ⟨stays, slept⟩ := still_asleep (state.gives mutex (some thread)) awake rfl
      (fun _ _ sleeps => sleeps) sleeps
    rw [stays]
    refine sound.unready sleeper other slept ?_
    intro holder owned
    by_cases same : other = mutex
    · rw [same, free] at owned
      cases owned
    · refine silent_before (fun owed => owes owed) (silent holder ?_)
      rw [goes_owner, gives_of_ne _ _ _ same]
      exact owned

/-- A thread gives a mutex back. It owed no broadcast on it, so that the sleepers wait for
what does not hold. -/
theorem Sound.unlocked (sound : plan.Sound state) (awake : state.asleep thread = none)
    (obeys : plan.Obeys handle thread (state.place thread)
      (.unlock mutex next : Instruction κ Op Res ℓ)) :
    plan.Sound ((state.gives mutex none).goes thread next) := by
  obtain ⟨holds, paid, held, owes, passes⟩ := obeys
  have known := passes state.world sound.invariant (sound.knows thread)
  have owned := (sound.owner thread mutex).mpr holds
  constructor
  · exact sound.invariant
  · refine goes_all (fun other place => ∀ held, (state.gives mutex none).owner held =
      some other ↔ held ∈ plan.holds place) ?_ ?_
    · intro other
      rw [held, Set.mem_sdiff_singleton, ← sound.owner thread other]
      by_cases same : other = mutex
      · simp [same]
      · simp [gives_of_ne _ _ _ same, same]
    · intro other differ
      refine gives_owner sound ?_ differ
      intro another apart
      simp [owned, apart.symm]
  · exact goes_all (fun other place => plan.knows other place state.world) known
      fun other _ => sound.knows other
  · intro sleeper other sleeps
    obtain ⟨same, slept⟩ := still_asleep (state.gives mutex none) awake rfl
      (fun _ _ sleeps => sleeps) sleeps
    rw [same]
    exact sound.sleeping sleeper other slept
  · intro sleeper other sleeps silent
    obtain ⟨stays, slept⟩ := still_asleep (state.gives mutex none) awake rfl
      (fun _ _ sleeps => sleeps) sleeps
    rw [stays]
    refine sound.unready sleeper other slept ?_
    intro holder has
    by_cases same : other = mutex
    · subst same
      obtain rfl := Option.some.inj (has.symm.trans owned)
      exact paid
    · refine silent_before (fun owed => owes owed) (silent holder ?_)
      rw [goes_owner, gives_of_ne _ _ _ same]
      exact has

/-- A thread waits: it knows that its condition does not hold. -/
theorem Sound.waited (sound : plan.Sound state) (awake : state.asleep thread = none)
    (obeys : plan.Obeys handle thread (state.place thread)
      (.wait mutex next : Instruction κ Op Res ℓ)) :
    plan.Sound (((state.gives mutex none).sleeps thread mutex).goes thread next) := by
  obtain ⟨holds, paid, held, rests, passes, unready⟩ := obeys
  have known := passes state.world sound.invariant (sound.knows thread)
  have owned : state.owner mutex = some thread := by
    rw [sound.owner, holds]
    exact Set.mem_singleton mutex
  have only : ∀ {other}, state.owner other = some thread → other = mutex := by
    intro other has
    have among := (sound.owner thread other).mp has
    rwa [holds] at among
  constructor
  · exact sound.invariant
  · refine goes_all (fun other place => ∀ held, (state.gives mutex none).owner held =
      some other ↔ held ∈ plan.holds place) ?_ ?_
    · intro other
      rw [held, iff_false_right (Set.notMem_empty other)]
      by_cases same : other = mutex
      · simp [same]
      · rw [gives_of_ne _ _ _ same]
        exact fun has => same (only has)
    · intro other differ
      refine gives_owner sound ?_ differ
      intro another apart
      simp [owned, apart.symm]
  · exact goes_all (fun other place => plan.knows other place state.world) known
      fun other _ => sound.knows other
  · intro sleeper other sleeps
    by_cases mover : sleeper = thread
    · subst mover
      rw [goes_asleep, sleeps_self] at sleeps
      obtain rfl := Option.some.inj sleeps
      rw [goes_self]
      exact ⟨rests, held⟩
    · rw [goes_of_ne _ _ _ mover]
      refine sound.sleeping sleeper other ?_
      rwa [goes_asleep, sleeps_of_ne _ _ _ mover] at sleeps
  · intro sleeper other sleeps silent
    by_cases mover : sleeper = thread
    · rw [mover, goes_self]
      exact unready state.world sound.invariant (sound.knows thread)
    · rw [goes_asleep, sleeps_of_ne _ _ _ mover] at sleeps
      rw [goes_of_ne _ _ _ mover]
      refine sound.unready sleeper other sleeps ?_
      intro holder has
      by_cases same : other = mutex
      · subst same
        obtain rfl := Option.some.inj (has.symm.trans owned)
        exact paid
      · have apart : holder ≠ thread := by
          rintro rfl
          exact same (only has)
        have still := silent holder ?_
        · rwa [goes_of_ne _ _ _ apart] at still
        · rw [goes_owner, sleeps_owner, gives_of_ne _ _ _ same]
          exact has

/-- A thread wakes those that sleep on a condition variable. -/
theorem Sound.broadcasted (sound : plan.Sound state) (awake : state.asleep thread = none)
    (obeys : plan.Obeys handle thread (state.place thread)
      (.broadcast mutex next : Instruction κ Op Res ℓ)) :
    plan.Sound ((state.wakes mutex).goes thread next) := by
  obtain ⟨held, owes, passes⟩ := obeys
  have known := passes state.world sound.invariant (sound.knows thread)
  constructor
  · exact sound.invariant
  · refine goes_all (fun other place => ∀ held, state.owner held = some other ↔
      held ∈ plan.holds place) ?_ fun other _ => sound.owner other
    rw [held]
    exact sound.owner thread
  · exact goes_all (fun other place => plan.knows other place state.world) known
      fun other _ => sound.knows other
  · intro sleeper other sleeps
    obtain ⟨same, slept⟩ := still_asleep (state.wakes mutex) awake rfl
      (fun _ _ => wakes_before) sleeps
    rw [same]
    exact sound.sleeping sleeper other slept
  · intro sleeper other sleeps silent
    obtain ⟨stays, slept⟩ := still_asleep (state.wakes mutex) awake rfl
      (fun _ _ => wakes_before) sleeps
    rw [stays]
    refine sound.unready sleeper other slept ?_
    intro holder has
    have differ := (wakes_asleep.mp sleeps).1
    exact silent_before (fun owed => owes ⟨owed, differ⟩) (silent holder has)

omit [DecidableEq κ] in
/-- A thread wakes one of those that sleep on a condition variable, or nobody. -/
theorem Sound.signalled (sleeper : Option ι) (sound : plan.Sound state)
    (awake : state.asleep thread = none)
    (obeys : plan.Obeys handle thread (state.place thread)
      (.signal mutex next : Instruction κ Op Res ℓ)) :
    plan.Sound ((state.rouses sleeper).goes thread next) := by
  obtain ⟨held, owes, passes⟩ := obeys
  have known := passes state.world sound.invariant (sound.knows thread)
  constructor
  · exact sound.invariant
  · refine goes_all (fun other place => ∀ held, state.owner held = some other ↔
      held ∈ plan.holds place) ?_ fun other _ => sound.owner other
    rw [held]
    exact sound.owner thread
  · exact goes_all (fun other place => plan.knows other place state.world) known
      fun other _ => sound.knows other
  · intro sleeping other sleeps
    obtain ⟨same, slept⟩ := still_asleep (state.rouses sleeper) awake rfl
      (fun _ _ => rouses_before) sleeps
    rw [same]
    exact sound.sleeping sleeping other slept
  · intro sleeping other sleeps silent
    obtain ⟨stays, slept⟩ := still_asleep (state.rouses sleeper) awake rfl
      (fun _ _ => rouses_before) sleeps
    rw [stays]
    refine sound.unready sleeping other slept ?_
    intro holder has
    exact silent_before (fun owed => owes owed) (silent holder has)

omit [DecidableEq κ] in
/-- A call is answered. Where it makes a condition true, the caller holds the mutex and owes
the broadcast. -/
theorem Sound.answered {op : Op} {next : Res op → ℓ} {answer : Res op} {after : σ}
    (sound : plan.Sound state) (awake : state.asleep thread = none)
    (obeys : plan.Obeys handle thread (state.place thread) (.call op next))
    (reply : handle thread op state.world = some (answer, after)) :
    plan.Sound ({ state with world := after }.goes thread (next answer)) := by
  have allows := obeys state.world answer after sound.invariant (sound.knows thread) reply
  constructor
  · exact allows.invariant
  · refine goes_all (fun other place => ∀ held, state.owner held = some other ↔
      held ∈ plan.holds place) ?_ fun other _ => sound.owner other
    rw [allows.holds]
    exact sound.owner thread
  · refine goes_all (fun other place => plan.knows other place after) allows.knows ?_
    intro other differ
    exact allows.others other differ (state.place other) (sound.disjoint differ.symm)
      (sound.knows other)
  · intro sleeper other sleeps
    obtain ⟨same, slept⟩ := still_asleep { state with world := after } awake rfl
      (fun _ _ sleeps => sleeps) sleeps
    rw [same]
    exact sound.sleeping sleeper other slept
  · intro sleeper other sleeps silent wanted
    obtain ⟨stays, slept⟩ := still_asleep { state with world := after } awake rfl
      (fun _ _ sleeps => sleeps) sleeps
    rw [stays] at wanted
    have before : ¬plan.wanted (state.place sleeper) state.world := by
      refine sound.unready sleeper other slept ?_
      intro holder has
      exact silent_before (fun owed => allows.owes owed) (silent holder has)
    obtain ⟨holds, owed⟩ := allows.raised other (state.place sleeper)
      (sound.sleeping sleeper other slept).1 wanted before
    refine silent thread ((sound.owner thread other).mpr holds) ?_
    rwa [goes_self]

omit [DecidableEq κ] in
/-- A thread that wakes up for no reason stays where it is. -/
theorem Sound.roused (sound : plan.Sound state) : plan.Sound (state.rouses (some thread)) :=
  ⟨sound.invariant, sound.owner, sound.knows,
    fun sleeper other sleeps => sound.sleeping sleeper other (rouses_before sleeps),
    fun sleeper other sleeps silent => sound.unready sleeper other (rouses_before sleeps) silent⟩

end Steps

section Runs

variable [DecidableEq κ] [DecidableEq ι] {code : ι → ℓ → Instruction κ Op Res ℓ}
  {handle : ι → Program.Handler Op Res σ} {state next : Monitored κ ι ℓ σ}

/-- One step: the mover does what its place says. -/
theorem Sound.step (obeys : ∀ thread place, plan.Obeys handle thread place (code thread place))
    (sound : plan.Sound state) (taken : Monitored.Step code handle state next) :
    plan.Sound next := by
  cases taken with
  | roused thread => exact sound.roused
  | @moved thread _ moves =>
    have here := obeys thread (state.place thread)
    cases moves with
    | locked awake place free =>
      rw [place] at here
      exact sound.locked awake free here
    | unlocked awake place =>
      rw [place] at here
      exact sound.unlocked awake here
    | waited awake place =>
      rw [place] at here
      exact sound.waited awake here
    | broadcasted awake place =>
      rw [place] at here
      exact sound.broadcasted awake here
    | signalled awake place asleep =>
      rw [place] at here
      exact sound.signalled _ awake here
    | unheard awake place nobody =>
      rw [place] at here
      exact sound.signalled none awake here
    | answered awake place reply =>
      rw [place] at here
      exact sound.answered awake here reply

/-- What holds of the start holds in every reachable state. -/
theorem Sound.reachable (obeys : ∀ thread place, plan.Obeys handle thread place (code thread place))
    (sound : plan.Sound state) (reached : Monitored.Reachable code handle state next) :
    plan.Sound next := by
  induction reached with
  | refl => exact sound
  | tail _ taken inductionHypothesis => exact inductionHypothesis.step obeys taken

/-- An awake thread that cannot move waits for a mutex that has an owner, or for an answer, or
has ended. -/
theorem stopped {thread : ι} (still : Monitored.Still code handle state)
    (awake : state.asleep thread = none) :
    (∃ mutex next holder, code thread (state.place thread) = .lock mutex next ∧
      state.owner mutex = some holder) ∨
    Monitored.Unanswered code handle state thread ∨
    code thread (state.place thread) = .ended := by
  cases here : code thread (state.place thread) with
  | lock mutex next =>
    cases owned : state.owner mutex with
    | none => exact (still thread _ (.locked awake here owned)).elim
    | some holder => exact Or.inl ⟨mutex, next, holder, rfl, owned⟩
  | unlock mutex next => exact (still thread _ (.unlocked awake here)).elim
  | wait mutex next => exact (still thread _ (.waited awake here)).elim
  | broadcast mutex next => exact (still thread _ (.broadcasted awake here)).elim
  | signal mutex next =>
    by_cases heard : ∃ sleeper, state.asleep sleeper = some mutex
    · obtain ⟨sleeper, asleep⟩ := heard
      exact (still thread _ (.signalled awake here asleep)).elim
    · exact (still thread _ (.unheard awake here (not_exists.mp heard))).elim
  | call op next =>
    cases reply : handle thread op state.world with
    | none => exact Or.inr (Or.inl ⟨op, next, here, reply⟩)
    | some answered => exact (still thread _ (.answered awake here reply)).elim
  | ended => exact Or.inr (Or.inr rfl)

/-- When nobody can move, and nobody has a mutex while a call is not answered, then all
mutexes are free: the owner of the one with the highest rank would wait for a higher one. -/
theorem Sound.free [Finite κ]
    (obeys : ∀ thread place, plan.Obeys handle thread place (code thread place))
    (sound : plan.Sound state) (still : Monitored.Still code handle state)
    (outside : ∀ thread, Monitored.Unanswered code handle state thread →
      plan.holds (state.place thread) = ∅) (mutex : κ) : state.owner mutex = none := by
  by_contra taken
  obtain ⟨highest, owned, above⟩ := Set.exists_max_image {held | state.owner held ≠ none}
    plan.rank (Set.toFinite _) ⟨mutex, taken⟩
  obtain ⟨thread, owner⟩ := Option.ne_none_iff_exists'.mp owned
  have holds := (sound.owner thread highest).mp owner
  have some : plan.holds (state.place thread) ≠ ∅ := Set.nonempty_iff_ne_empty.mp ⟨highest, holds⟩
  have awake : state.asleep thread = none := by
    rw [Option.eq_none_iff_forall_ne_some]
    exact fun other sleeps => some (sound.sleeping thread other sleeps).2
  have here := obeys thread (state.place thread)
  rcases stopped still awake with ⟨wanted, next, holder, place, other⟩ | unanswered | ended
  · rw [place] at here
    have order := here.1 highest holds
    have most := above wanted (Option.ne_none_iff_exists'.mpr ⟨holder, other⟩)
    omega
  · exact some (outside thread unanswered)
  · rw [ended] at here
    exact some here

/-- Then whoever has not ended waits for an answer, or for a condition that does not hold. -/
theorem Sound.still [Finite κ]
    (obeys : ∀ thread place, plan.Obeys handle thread place (code thread place))
    (sound : plan.Sound state) (still : Monitored.Still code handle state)
    (outside : ∀ thread, Monitored.Unanswered code handle state thread →
      plan.holds (state.place thread) = ∅) (thread : ι) :
    (∃ mutex, state.asleep thread = some mutex ∧ ¬plan.wanted (state.place thread) state.world) ∨
    (state.asleep thread = none ∧ (Monitored.Unanswered code handle state thread ∨
      code thread (state.place thread) = .ended)) := by
  have free := sound.free obeys still outside
  cases sleeps : state.asleep thread with
  | some mutex => exact Or.inl ⟨mutex, rfl, sound.none_missed (free mutex) sleeps⟩
  | none =>
    rcases stopped still sleeps with ⟨mutex, next, holder, _, owned⟩ | stops
    · rw [free mutex] at owned
      cases owned
    · exact Or.inr ⟨rfl, stops⟩

end Runs

end MonitorPlan

end Nvmkv
