import Mathlib.Algebra.Order.BigOperators.Group.Finset
import Nvmkv.BufferPool
import Nvmkv.MonitoredPrograms

/-!
# The wake-ups of the buffer pool

`get_buf` and `release_buf` statement by statement, with the mutex of the pool and its
condition variable. A thread that finds the pool empty sleeps until it is woken. A thread
that releases a buffer wakes one sleeper, but only when the pool was empty before
(`pthread_cond_signal` under `isEmpty`). Each thread gets and releases buffers as often as it
is asked to, one at a time.

One wake-up for the first buffer is too few. When two threads sleep and two buffers are
released before the first sleeper has taken the mutex again, the second release finds a
buffer in the pool and wakes nobody; the second sleeper sleeps on while buffers are free, and
no later release wakes it unless the pool was drained in between. Whether this can happen
depends on two numbers only: it cannot when the pool has one buffer, or when there is at most
one thread more than there are buffers, and in every other case it can.
-/

namespace Nvmkv

namespace NvmKvBufferPool

/-- What the mutex of the pool lets through. -/
inductive PoolOp where
  | isEmpty
  | getBuf (size : Nat)
  | releaseBuf (buff : Option Nat) (size : Nat)

/-- The answers. -/
abbrev PoolRes : PoolOp → Type
  | .isEmpty => Bool
  | .getBuf _ => Option Nat × Nat
  | .releaseBuf _ _ => Unit

/-- A buffer that a thread has, with its size. -/
structure Buffer where
  buff : Nat
  size : Nat

/-- Where a thread is, with the sizes that it will ask for later. -/
inductive Place where
  | outside (sizes : List Nat)
  | testing (size : Nat) (sizes : List Nat)
  | waiting (size : Nat) (sizes : List Nat)
  | woken (size : Nat) (sizes : List Nat)
  | taking (size : Nat) (sizes : List Nat)
  | taken (buffer : Option Buffer) (sizes : List Nat)
  | working (buffer : Buffer) (sizes : List Nat)
  | checking (buffer : Buffer) (sizes : List Nat)
  | adding (isEmpty : Bool) (buffer : Buffer) (sizes : List Nat)
  | signalling (sizes : List Nat)
  | leaving (sizes : List Nat)

/-- The place after the mutex is released: a call that got no buffer returns at once. -/
def Place.afterwards : Option Buffer → List Nat → Place
  | some buffer, sizes => .working buffer sizes
  | none, sizes => .outside sizes

/-- The statements (`get_buf`, `release_buf`), and the calls of a thread around them. -/
def code {ι : Type} (_ : ι) : Place → Instruction Unit PoolOp PoolRes Place
  | .outside [] => .ended
  | .outside (size :: sizes) => .lock () (.testing size sizes)
  | .testing size sizes =>
      .call .isEmpty fun empty => if empty then .waiting size sizes else .taking size sizes
  | .waiting size sizes => .wait () (.woken size sizes)
  | .woken size sizes => .lock () (.testing size sizes)
  | .taking size sizes =>
      .call (.getBuf size) fun answer => .taken (answer.1.map fun buff => ⟨buff, answer.2⟩) sizes
  | .taken buffer sizes => .unlock () (.afterwards buffer sizes)
  | .working buffer sizes => .lock () (.checking buffer sizes)
  | .checking buffer sizes => .call .isEmpty fun empty => .adding empty buffer sizes
  | .adding isEmpty buffer sizes =>
      .call (.releaseBuf (some buffer.buff) buffer.size) fun _ =>
        if isEmpty then .signalling sizes else .leaving sizes
  | .signalling sizes => .signal () (.leaving sizes)
  | .leaving sizes => .unlock () (.outside sizes)

/-- How many buffers a thread has. -/
def Place.held : Place → Nat
  | .taken (some _) _ | .working _ _ | .checking _ _ | .adding _ _ _ => 1
  | _ => 0

variable {ι : Type} [DecidableEq ι]

/-- Answer what a thread does. -/
def answerPool (thread : ι) : (op : PoolOp) → BufferPool ι → Option (PoolRes op × BufferPool ι)
  | .isEmpty, pool => some (pool.buffers.isEmpty, pool)
  | .getBuf size, pool => pool.getBuf thread size
  | .releaseBuf buff size, pool => some ((), pool.releaseBuf thread buff size)

/-- The threads of a pool that was just created, with the sizes that they will ask for. -/
def startPool (numBuffers bufferLimit : Nat) (memory : Nat → Bool) (contents : Nat → Region)
    (sizes : ι → List Nat) : Monitored Unit ι Place (BufferPool ι) :=
  .start (.initialized numBuffers bufferLimit memory contents) fun thread => .outside (sizes thread)

/-- What holds at the places. Nothing is promised to sleepers. -/
def plan : MonitorPlan Unit ι Place (BufferPool ι) where
  rank := fun _ => 0
  holds := fun
    | .outside _ | .woken _ _ | .working _ _ => ∅
    | _ => {()}
  owes := fun _ => ∅
  sleeps := fun
    | .woken _ _ => {()}
    | _ => ∅
  wanted := fun _ _ => False
  invariant := fun pool => ∀ entry ∈ pool.buffers, entry.1 ≠ none
  knows := fun _ => fun
    | .waiting _ _ => fun pool => pool.buffers = []
    | .taking _ _ => fun pool => pool.buffers ≠ []
    | .adding isEmpty _ _ => fun pool => isEmpty = pool.buffers.isEmpty
    | _ => fun _ => True

/-- A thread sleeps next to a buffer, and nobody is on the way in the code of the pool. -/
def Stranded (state : Monitored Unit ι Place (BufferPool ι)) : Prop :=
  (∃ thread, state.asleep thread = some ()) ∧ state.world.buffers ≠ [] ∧
    ∀ thread, state.asleep thread = none →
      (∃ sizes, state.place thread = .outside sizes) ∨
        ∃ buffer sizes, state.place thread = .working buffer sizes

section Answers

variable {pool after : BufferPool ι} {thread : ι}

omit [DecidableEq ι] in
/-- A call takes the first buffer, or leaves the pool as it is when there is no memory for the
buffer that it needs. -/
theorem getBuf_cases {size : Nat} {answer : Option Nat × Nat}
    (named : ∀ entry ∈ pool.buffers, entry.1 ≠ none)
    (reply : pool.getBuf thread size = some (answer, after)) :
    after.memory = pool.memory ∧
      ((answer.1 = none ∧ pool.memory pool.allocations = false ∧ after.buffers = pool.buffers) ∨
        ((∃ buff, answer.1 = some buff) ∧ ∃ entry, pool.buffers = entry :: after.buffers)) := by
  rw [BufferPool.getBuf] at reply
  cases buffers : pool.buffers with
  | nil =>
    rw [buffers] at reply
    cases reply
  | cons entry rest =>
    obtain ⟨buffer, bufferSize⟩ := entry
    rw [buffers] at reply
    dsimp only at reply
    split_ifs at reply with small enough
    · obtain ⟨rfl, rfl⟩ := Prod.mk.inj (Option.some.inj reply)
      exact ⟨rfl, Or.inr ⟨⟨_, rfl⟩, _, rfl⟩⟩
    · obtain ⟨rfl, rfl⟩ := Prod.mk.inj (Option.some.inj reply)
      exact ⟨rfl, Or.inl ⟨rfl, Bool.eq_false_iff.mpr enough, rfl⟩⟩
    · obtain ⟨rfl, rfl⟩ := Prod.mk.inj (Option.some.inj reply)
      have some := named (buffer, bufferSize) (buffers ▸ List.mem_cons_self)
      exact ⟨rfl, Or.inr ⟨Option.ne_none_iff_exists'.mp some, _, rfl⟩⟩

end Answers

section Obeys

variable {thread : ι} {place next : Place} {before after : BufferPool ι}

omit [DecidableEq ι] in
/-- What others know without the mutex is nothing about the pool. -/
theorem knows_apart (apart : () ∉ (plan (ι := ι)).holds place) :
    plan.knows thread place after := by
  cases place with
  | outside sizes => exact trivial
  | woken size sizes => exact trivial
  | working buffer sizes => exact trivial
  | _ => exact (apart rfl).elim

omit [DecidableEq ι] in
/-- What a call with the mutex does to the pool is nobody else's matter. -/
theorem allows_inside (inside : (plan (ι := ι)).holds place = {()})
    (holds : (plan (ι := ι)).holds next = {()}) (named : plan.invariant after)
    (knows : plan.knows thread next after) : plan.Allows thread place next before after where
  holds := holds.trans inside.symm
  owes := fun _ owes => owes
  invariant := named
  knows := knows
  raised := fun _ _ _ wanted => wanted.elim
  others := by
    intro other differ elsewhere apart known
    rw [inside] at apart
    exact knows_apart (apart () rfl)

/-- Every statement keeps the plan. -/
theorem code_obeys (thread : ι) (place : Place) :
    plan.Obeys answerPool thread place (code thread place) := by
  have enters : ∀ inside : Place, (plan (ι := ι)).holds inside = {()} →
      (∀ pool, plan.knows thread inside pool) → (plan (ι := ι)).holds place = ∅ →
        plan.Obeys answerPool thread place
          (.lock () inside : Instruction Unit PoolOp PoolRes Place) := by
    intro inside holds knows free
    refine ⟨?_, ?_, fun _ owes => owes, fun pool _ _ => knows pool⟩
    · rw [free]
      exact fun held absent => absent.elim
    · rw [holds, free]
      exact (insert_empty_eq ()).symm
  have leaves : ∀ outside : Place, (plan (ι := ι)).holds outside = ∅ →
      (∀ pool, plan.knows thread outside pool) → (plan (ι := ι)).holds place = {()} →
        plan.Obeys answerPool thread place
          (.unlock () outside : Instruction Unit PoolOp PoolRes Place) := by
    intro outside free knows holds
    refine ⟨?_, fun owes => owes, ?_, fun _ owes => owes, fun pool _ _ => knows pool⟩
    · rw [holds]
      exact rfl
    · rw [holds, free]
      exact (Set.sdiff_self : ({()} : Set Unit) \ {()} = ∅).symm
  cases place with
  | outside sizes =>
    cases sizes with
    | nil => exact rfl
    | cons size sizes => exact enters _ rfl (fun _ => trivial) rfl
  | testing size sizes =>
    intro before empty after named known reply
    obtain ⟨rfl, rfl⟩ := Prod.mk.inj (Option.some.inj reply)
    cases buffers : before.buffers with
    | nil => exact allows_inside rfl rfl named buffers
    | cons entry rest =>
      refine allows_inside rfl rfl named ?_
      intro none
      rw [buffers] at none
      cases none
  | waiting size sizes =>
    exact ⟨rfl, fun owes => owes, rfl, rfl, fun _ _ _ => trivial, fun _ _ _ wanted => wanted⟩
  | woken size sizes => exact enters _ rfl (fun _ => trivial) rfl
  | taking size sizes =>
    intro before answer after named known reply
    refine allows_inside rfl rfl ?_ trivial
    rcases (getBuf_cases named reply).2 with ⟨_, _, same⟩ | ⟨_, entry, buffers⟩
    · exact fun other member => named other (same ▸ member)
    · exact fun other member => named other (buffers ▸ List.mem_cons_of_mem entry member)
  | taken buffer sizes =>
    cases buffer with
    | none => exact leaves _ rfl (fun _ => trivial) rfl
    | some buffer => exact leaves _ rfl (fun _ => trivial) rfl
  | working buffer sizes => exact enters _ rfl (fun _ => trivial) rfl
  | checking buffer sizes =>
    intro before empty after named known reply
    obtain ⟨rfl, rfl⟩ := Prod.mk.inj (Option.some.inj reply)
    exact allows_inside rfl rfl named rfl
  | adding isEmpty buffer sizes =>
    intro before answer after named known reply
    obtain ⟨rfl, rfl⟩ := Prod.mk.inj (Option.some.inj reply)
    have kept : plan.invariant (before.releaseBuf thread (some buffer.buff) buffer.size) := by
      intro entry member
      rcases List.mem_cons.mp member with rfl | member
      · exact Option.some_ne_none buffer.buff
      · exact named entry member
    cases isEmpty with
    | true => exact allows_inside rfl rfl kept trivial
    | false => exact allows_inside rfl rfl kept trivial
  | signalling sizes => exact ⟨rfl, fun _ owes => owes, fun _ _ _ => trivial⟩
  | leaving sizes => exact leaves _ rfl (fun _ => trivial) rfl

end Obeys

/-- The places on the way to a buffer, or about to wake somebody. -/
def Place.hastens : Place → Bool
  | .testing _ _ | .woken _ _ | .taking _ _ | .signalling _ => true
  | _ => false

/-- What a move does to the buffers, to the sleepers and to what the mover has. -/
inductive Turn (thread : ι) (state next : Monitored Unit ι Place (BufferPool ι)) : Prop
  | quiet (buffers : next.world.buffers = state.world.buffers)
      (asleep : next.asleep = state.asleep)
      (held : (next.place thread).held = (state.place thread).held)
      (before : ∀ sizes, state.place thread ≠ .signalling sizes)
      (hastens : state.world.buffers ≠ [] → (state.place thread).hastens = true →
        (next.place thread).hastens = true)
  | sleeps (empty : state.world.buffers = []) (buffers : next.world.buffers = [])
      (asleep : next.asleep = Function.update state.asleep thread (some ()))
      (held : (state.place thread).held = 0) (after : (next.place thread).held = 0)
  | signals (sleeper : Option ι) (buffers : next.world.buffers = state.world.buffers)
      (asleep : next.asleep = (state.rouses sleeper).asleep)
      (found : ∀ other, sleeper = some other → state.asleep other = some ())
      (unheard : sleeper = none → ∀ other, state.asleep other ≠ some ())
      (held : (state.place thread).held = 0) (after : (next.place thread).held = 0)
  | takes (entry : Option Nat × Nat)
      (buffers : state.world.buffers = entry :: next.world.buffers)
      (asleep : next.asleep = state.asleep)
      (inside : () ∈ (plan (ι := ι)).holds (state.place thread))
      (before : ∀ sizes, state.place thread ≠ .signalling sizes)
      (held : (state.place thread).held = 0) (after : (next.place thread).held = 1)
  | refused (memory : state.world.memory state.world.allocations = false)
      (buffers : next.world.buffers = state.world.buffers) (asleep : next.asleep = state.asleep)
      (before : ∀ sizes, state.place thread ≠ .signalling sizes)
      (held : (state.place thread).held = 0) (after : (next.place thread).held = 0)
  | adds (entry : Option Nat × Nat)
      (buffers : next.world.buffers = entry :: state.world.buffers)
      (asleep : next.asleep = state.asleep)
      (inside : () ∈ (plan (ι := ι)).holds (state.place thread))
      (before : ∀ sizes, state.place thread ≠ .signalling sizes)
      (held : (state.place thread).held = 1) (after : (next.place thread).held = 0)
      (signals : state.world.buffers = [] → ∃ sizes, next.place thread = .signalling sizes)

section Moves

variable {thread : ι} {state next : Monitored Unit ι Place (BufferPool ι)}

/-- A move is one of these, and leaves alone which allocations succeed. -/
theorem moves_turn (sound : plan.Sound state)
    (moves : Monitored.Moves code answerPool thread state next) :
    next.world.memory = state.world.memory ∧ Turn thread state next := by
  have named := sound.invariant
  have knows := sound.knows thread
  cases place : state.place thread with
  | outside sizes =>
    cases sizes with
    | nil => exact absurd (by rw [place]; rfl) moves.at_end
    | cons size sizes =>
      obtain ⟨_, rfl⟩ := moves.at_lock (by rw [place]; rfl)
      refine ⟨rfl, .quiet rfl rfl ?_ ?_ ?_⟩ <;> simp [place, Place.held, Place.hastens]
  | woken size sizes =>
    obtain ⟨_, rfl⟩ := moves.at_lock (by rw [place]; rfl)
    refine ⟨rfl, .quiet rfl rfl ?_ ?_ ?_⟩ <;> simp [place, Place.held, Place.hastens]
  | working buffer sizes =>
    obtain ⟨_, rfl⟩ := moves.at_lock (by rw [place]; rfl)
    refine ⟨rfl, .quiet rfl rfl ?_ ?_ ?_⟩ <;> simp [place, Place.held, Place.hastens]
  | taken buffer sizes =>
    obtain rfl := moves.at_unlock (by rw [place]; rfl)
    cases buffer with
    | none =>
      refine ⟨rfl, .quiet rfl rfl ?_ ?_ ?_⟩ <;>
        simp [place, Place.held, Place.hastens, Place.afterwards]
    | some buffer =>
      refine ⟨rfl, .quiet rfl rfl ?_ ?_ ?_⟩ <;>
        simp [place, Place.held, Place.hastens, Place.afterwards]
  | leaving sizes =>
    obtain rfl := moves.at_unlock (by rw [place]; rfl)
    refine ⟨rfl, .quiet rfl rfl ?_ ?_ ?_⟩ <;> simp [place, Place.held, Place.hastens]
  | waiting size sizes =>
    obtain rfl := moves.at_wait (by rw [place]; rfl)
    rw [place] at knows
    refine ⟨rfl, .sleeps knows knows rfl ?_ ?_⟩ <;> simp [place, Place.held]
  | signalling sizes =>
    obtain ⟨sleeper, rfl, found, unheard⟩ := moves.at_signal (by rw [place]; rfl)
    refine ⟨rfl, .signals sleeper rfl rfl found unheard ?_ ?_⟩ <;> simp [place, Place.held]
  | testing size sizes =>
    obtain ⟨empty, after, reply, rfl⟩ := moves.at_call (by rw [place]; rfl)
    obtain ⟨rfl, rfl⟩ := Prod.mk.inj (Option.some.inj reply)
    cases buffers : state.world.buffers with
    | nil =>
      refine ⟨rfl, .quiet rfl rfl ?_ ?_ ?_⟩ <;> simp [place, Place.held, Place.hastens, buffers]
    | cons entry rest =>
      refine ⟨rfl, .quiet rfl rfl ?_ ?_ ?_⟩ <;> simp [place, Place.held, Place.hastens]
  | checking buffer sizes =>
    obtain ⟨empty, after, reply, rfl⟩ := moves.at_call (by rw [place]; rfl)
    obtain ⟨rfl, rfl⟩ := Prod.mk.inj (Option.some.inj reply)
    refine ⟨rfl, .quiet rfl rfl ?_ ?_ ?_⟩ <;> simp [place, Place.held, Place.hastens]
  | taking size sizes =>
    obtain ⟨answer, after, reply, rfl⟩ := moves.at_call (by rw [place]; rfl)
    obtain ⟨memory, ⟨none, lacking, buffers⟩ | ⟨⟨buff, some⟩, entry, buffers⟩⟩ :=
      getBuf_cases named reply
    · refine ⟨memory, .refused lacking buffers rfl ?_ ?_ ?_⟩ <;> simp [place, Place.held, none]
    · refine ⟨memory, .takes entry buffers rfl ?_ ?_ ?_ ?_⟩ <;>
        simp [place, Place.held, some, plan]
  | adding isEmpty buffer sizes =>
    obtain ⟨answer, after, reply, rfl⟩ := moves.at_call (by rw [place]; rfl)
    obtain ⟨rfl, rfl⟩ := Prod.mk.inj (Option.some.inj reply)
    rw [place] at knows
    refine ⟨rfl, .adds _ rfl rfl ?_ ?_ ?_ ?_ ?_⟩
    · simp [place, plan]
    · simp [place]
    · simp [place, Place.held]
    · cases isEmpty <;> simp [Place.held]
    · intro empty
      have told : isEmpty = true := by
        rw [knows, empty]
        rfl
      exact ⟨sizes, by simp [told]⟩

end Moves

section Counting

variable {state next : Monitored Unit ι Place (BufferPool ι)} {numBuffers : Nat}

omit [DecidableEq ι] in
/-- A thread has one buffer at most. -/
theorem Place.held_le_one (place : Place) : place.held ≤ 1 := by
  unfold Place.held
  split <;> omega

omit [DecidableEq ι] in
/-- A sleeper has no buffer, and is on its way to one when it is woken. -/
theorem sleeper_place (sound : plan.Sound state) {thread : ι}
    (sleeps : state.asleep thread = some ()) :
    (state.place thread).held = 0 ∧ (state.place thread).hastens = true ∧
      ∀ sizes, state.place thread ≠ .signalling sizes := by
  have rests := (sound.sleeping thread () sleeps).1
  cases place : state.place thread with
  | woken size sizes => exact ⟨rfl, rfl, fun sizes same => by cases same⟩
  | _ =>
    rw [place] at rests
    exact rests.elim

omit [DecidableEq ι] in
/-- Threads at these places have the mutex, so that there is one of them at most. -/
theorem signalling_inside {thread : ι} {sizes : List Nat}
    (there : state.place thread = .signalling sizes) :
    () ∈ (plan (ι := ι)).holds (state.place thread) := by
  rw [there]
  exact rfl

variable [Fintype ι]

/-- Buffers in the pool and with the threads. -/
def Accounted (numBuffers : Nat) (state : Monitored Unit ι Place (BufferPool ι)) : Prop :=
  state.world.buffers.length + ∑ thread, (state.place thread).held = numBuffers

/-- One thread changes what it has. -/
theorem sum_held {thread : ι} (others : ∀ other, other ≠ thread →
      next.place other = state.place other) :
    ∑ other, (next.place other).held + (state.place thread).held =
      ∑ other, (state.place other).held + (next.place thread).held := by
  have apart : ∑ other ∈ Finset.univ.erase thread, (next.place other).held =
      ∑ other ∈ Finset.univ.erase thread, (state.place other).held :=
    Finset.sum_congr rfl fun other member => by rw [others other (Finset.ne_of_mem_erase member)]
  rw [← Finset.add_sum_erase _ _ (Finset.mem_univ thread),
    ← Finset.add_sum_erase _ (fun other => (state.place other).held) (Finset.mem_univ thread),
    apart]
  omega

/-- No buffer is lost or made in a move. -/
theorem Accounted.move {thread : ι} (accounted : Accounted numBuffers state)
    (turn : Turn thread state next)
    (others : ∀ other, other ≠ thread → next.place other = state.place other) :
    Accounted numBuffers next := by
  have sums := sum_held others
  unfold Accounted at accounted ⊢
  cases turn with
  | quiet buffers asleep held before hastens =>
    rw [buffers]
    omega
  | sleeps empty buffers asleep held after =>
    rw [empty] at accounted
    rw [buffers]
    omega
  | signals sleeper buffers asleep found unheard held after =>
    rw [buffers]
    omega
  | takes entry buffers asleep inside before held after =>
    rw [buffers, List.length_cons] at accounted
    omega
  | refused memory buffers asleep before held after =>
    rw [buffers]
    omega
  | adds entry buffers asleep inside before held after signals =>
    rw [buffers, List.length_cons]
    omega

/-- When the pool is empty and there is one thread more than buffers, all threads but one that
has none have one. -/
theorem others_hold (accounted : Accounted numBuffers state)
    (few : Fintype.card ι ≤ numBuffers + 1) (empty : state.world.buffers = []) {thread other : ι}
    (none : (state.place thread).held = 0) (differ : other ≠ thread) :
    (state.place other).held = 1 := by
  by_contra lacking
  have bounded := (state.place other).held_le_one
  have fewer : ∑ other ∈ Finset.univ.erase thread, (state.place other).held <
      ∑ _other ∈ Finset.univ.erase thread, 1 :=
    Finset.sum_lt_sum (fun other _ => (state.place other).held_le_one)
      ⟨other, Finset.mem_erase.mpr ⟨differ, Finset.mem_univ other⟩, by omega⟩
  rw [← Finset.card_eq_sum_ones, Finset.card_erase_of_mem (Finset.mem_univ thread),
    Finset.card_univ] at fewer
  unfold Accounted at accounted
  rw [empty, ← Finset.add_sum_erase _ _ (Finset.mem_univ thread), none] at accounted
  rw [List.length_nil] at accounted
  omega

/-- With few threads, one sleeps at most, and it is about to be woken when there is a buffer. -/
structure FewThreads (numBuffers : Nat) (state : Monitored Unit ι Place (BufferPool ι)) : Prop where
  accounted : Accounted numBuffers state
  one : ∀ first second, state.asleep first = some () → state.asleep second = some () →
    first = second
  signalled : ∀ thread, state.asleep thread = some () → state.world.buffers ≠ [] →
    ∃ other sizes, state.place other = .signalling sizes

omit [DecidableEq ι] [Fintype ι] in
/-- A signalling thread that is not the mover goes on signalling. -/
theorem still_signalling {thread : ι} (before : ∀ sizes, state.place thread ≠ .signalling sizes)
    (others : ∀ other, other ≠ thread → next.place other = state.place other)
    (signalled : ∃ other sizes, state.place other = .signalling sizes) :
    ∃ other sizes, next.place other = .signalling sizes := by
  obtain ⟨other, sizes, there⟩ := signalled
  refine ⟨other, sizes, ?_⟩
  rw [others other ?_, there]
  rintro rfl
  exact before sizes there

/-- A move of one of few threads. -/
theorem FewThreads.move (few : Fintype.card ι ≤ numBuffers + 1) {thread : ι}
    (kept : FewThreads numBuffers state) (sound : plan.Sound state)
    (moves : Monitored.Moves code answerPool thread state next) : FewThreads numBuffers next := by
  have turn := (moves_turn sound moves).2
  have others := moves.awake.2
  have accounted := kept.accounted.move turn others
  have alone : ∀ sizes other, state.place other = .signalling sizes →
      () ∈ (plan (ι := ι)).holds (state.place thread) → other = thread :=
    fun sizes other there inside => sound.exclusive (signalling_inside there) inside
  cases turn with
  | quiet buffers asleep held before hastens =>
    refine ⟨accounted, asleep ▸ kept.one, ?_⟩
    rw [asleep, buffers]
    exact fun other sleeps some => still_signalling before others (kept.signalled other sleeps some)
  | refused memory buffers asleep before held after =>
    refine ⟨accounted, asleep ▸ kept.one, ?_⟩
    rw [asleep, buffers]
    exact fun other sleeps some => still_signalling before others (kept.signalled other sleeps some)
  | sleeps empty buffers asleep held after =>
    refine ⟨accounted, ?_, fun _ _ some => absurd buffers some⟩
    have only : ∀ other, next.asleep other = some () → other = thread := by
      intro other sleeps
      by_contra differ
      rw [asleep, Function.update_of_ne differ] at sleeps
      have none := (sleeper_place sound sleeps).1
      have one := others_hold kept.accounted few empty held differ
      omega
    intro first second sleeps also
    rw [only first sleeps, only second also]
  | signals sleeper buffers asleep found unheard held after =>
    refine ⟨accounted, ?_, ?_⟩
    · rw [asleep]
      intro first second sleeps also
      exact kept.one first second (Monitored.rouses_before sleeps) (Monitored.rouses_before also)
    · rw [asleep]
      intro other sleeps some
      have slept := Monitored.rouses_before sleeps
      cases sleeper with
      | none => exact absurd slept (unheard rfl other)
      | some woken =>
        have same := kept.one woken other (found woken rfl) slept
        subst same
        simp [Monitored.rouses] at sleeps
  | takes entry buffers asleep inside before held after =>
    refine ⟨accounted, asleep ▸ kept.one, ?_⟩
    rw [asleep]
    intro other sleeps some
    obtain ⟨signaller, sizes, there⟩ := kept.signalled other sleeps (by rw [buffers]; simp)
    rw [alone sizes signaller there inside] at there
    exact absurd there (before sizes)
  | adds entry buffers asleep inside before held after signals =>
    refine ⟨accounted, asleep ▸ kept.one, ?_⟩
    rw [asleep]
    intro other sleeps some
    by_cases empty : state.world.buffers = []
    · exact ⟨thread, signals empty⟩
    · obtain ⟨signaller, sizes, there⟩ := kept.signalled other sleeps empty
      rw [alone sizes signaller there inside] at there
      exact absurd there (before sizes)

/-- With one buffer, and memory for every allocation, somebody who is awake is on the way when
there is a buffer and others sleep. -/
structure OneBuffer (numBuffers : Nat) (state : Monitored Unit ι Place (BufferPool ι)) : Prop where
  accounted : Accounted numBuffers state
  memory : ∀ allocation, state.world.memory allocation = true
  relieved : ∀ thread, state.asleep thread = some () → state.world.buffers ≠ [] →
    ∃ other, state.asleep other = none ∧ (state.place other).hastens = true

/-- A move with one buffer. -/
theorem OneBuffer.move (single : numBuffers ≤ 1) {thread : ι} (kept : OneBuffer numBuffers state)
    (sound : plan.Sound state) (moves : Monitored.Moves code answerPool thread state next) :
    OneBuffer numBuffers next := by
  obtain ⟨memory, turn⟩ := moves_turn sound moves
  obtain ⟨awake, others⟩ := moves.awake
  have accounted := kept.accounted.move turn others
  have mine : (state.place thread).held ≤ ∑ other, (state.place other).held :=
    Finset.single_le_sum (fun other _ => Nat.zero_le (state.place other).held)
      (Finset.mem_univ thread)
  have before : state.world.buffers.length + ∑ other, (state.place other).held = numBuffers :=
    kept.accounted
  refine ⟨accounted, memory ▸ kept.memory, ?_⟩
  intro other sleeps some
  cases turn with
  | quiet buffers asleep held before hastens =>
    rw [asleep] at sleeps ⊢
    rw [buffers] at some
    obtain ⟨helper, up, goes⟩ := kept.relieved other sleeps some
    refine ⟨helper, up, ?_⟩
    by_cases same : helper = thread
    · subst same
      exact hastens some goes
    · rw [others helper same]
      exact goes
  | sleeps empty buffers asleep held after => exact absurd buffers some
  | signals sleeper buffers asleep found unheard held after =>
    rw [asleep] at sleeps ⊢
    have slept := Monitored.rouses_before sleeps
    cases sleeper with
    | none => exact absurd slept (unheard rfl other)
    | some woken =>
      have dozed := found woken rfl
      refine ⟨woken, by simp [Monitored.rouses], ?_⟩
      rw [others woken]
      · exact (sleeper_place sound dozed).2.1
      · rintro rfl
        rw [awake] at dozed
        cases dozed
  | takes entry buffers asleep inside signals held after =>
    rw [buffers, List.length_cons] at before
    exact absurd (List.length_eq_zero_iff.mp (by omega)) some
  | refused lacking buffers asleep signals held after =>
    rw [kept.memory] at lacking
    cases lacking
  | adds entry buffers asleep inside waits held after signals =>
    have empty : state.world.buffers = [] := List.length_eq_zero_iff.mp (by omega)
    obtain ⟨sizes, there⟩ := signals empty
    exact ⟨thread, asleep ▸ awake, by rw [there]; rfl⟩

omit [DecidableEq ι] in
/-- At the start nobody is in the code of the pool. -/
theorem start_accounted (bufferLimit : Nat) (memory : Nat → Bool) (contents : Nat → Region)
    (sizes : ι → List Nat) :
    plan.Sound (startPool numBuffers bufferLimit memory contents sizes) ∧
      Accounted numBuffers (startPool numBuffers bufferLimit memory contents sizes) := by
  refine ⟨.start ?_ (fun _ => rfl) fun _ => trivial, ?_⟩
  · intro entry member
    obtain ⟨buff, _, rfl⟩ := List.mem_map.mp member
    exact Option.some_ne_none buff
  · simp [Accounted, startPool, Monitored.start, BufferPool.initialized, Place.held]

/-- With at most one thread more than buffers, nobody is ever stranded, whichever allocations
fail. -/
theorem few_never_stranded (few : Fintype.card ι ≤ numBuffers + 1) {bufferLimit : Nat}
    {memory : Nat → Bool} {contents : Nat → Region} {sizes : ι → List Nat}
    (run : Monitored.Reachable code answerPool
      (startPool numBuffers bufferLimit memory contents sizes) state) : ¬Stranded state := by
  obtain ⟨start, accounted⟩ := @start_accounted _ numBuffers _ bufferLimit memory contents sizes
  have kept : FewThreads numBuffers state := by
    induction run with
    | refl =>
      exact ⟨accounted, fun _ _ sleeps => (by cases sleeps), fun _ sleeps => (by cases sleeps)⟩
    | tail reached taken inductionHypothesis =>
      cases taken with
      | moved moves => exact inductionHypothesis.move few (start.reachable code_obeys reached) moves
      | roused thread =>
        exact ⟨inductionHypothesis.accounted,
          fun first second sleeps also => inductionHypothesis.one first second
            (Monitored.rouses_before sleeps) (Monitored.rouses_before also),
          fun other sleeps => inductionHypothesis.signalled other (Monitored.rouses_before sleeps)⟩
  rintro ⟨⟨thread, sleeps⟩, some, outside⟩
  obtain ⟨other, sizes, there⟩ := kept.signalled thread sleeps some
  cases asleep : state.asleep other with
  | some mutex =>
    have quiet := (sleeper_place (start.reachable code_obeys run) asleep).2.2 sizes
    exact quiet there
  | none =>
    rcases outside other asleep with ⟨_, apart⟩ | ⟨_, _, apart⟩ <;>
      cases there.symm.trans apart

/-- With one buffer and memory for every allocation, nobody is either. -/
theorem single_never_stranded (single : numBuffers ≤ 1) {bufferLimit : Nat}
    {memory : Nat → Bool} (allocates : ∀ allocation, memory allocation = true)
    {contents : Nat → Region} {sizes : ι → List Nat}
    (run : Monitored.Reachable code answerPool
      (startPool numBuffers bufferLimit memory contents sizes) state) : ¬Stranded state := by
  obtain ⟨start, accounted⟩ := @start_accounted _ numBuffers _ bufferLimit memory contents sizes
  have kept : OneBuffer numBuffers state := by
    induction run with
    | refl => exact ⟨accounted, allocates, fun _ sleeps => (by cases sleeps)⟩
    | tail reached taken inductionHypothesis =>
      cases taken with
      | moved moves =>
        exact inductionHypothesis.move single (start.reachable code_obeys reached) moves
      | roused thread =>
        refine ⟨inductionHypothesis.accounted, inductionHypothesis.memory, ?_⟩
        intro other sleeps some
        obtain ⟨helper, up, goes⟩ :=
          inductionHypothesis.relieved other (Monitored.rouses_before sleeps) some
        refine ⟨helper, ?_, goes⟩
        rw [Monitored.rouses]
        dsimp only
        rw [up, ite_self]
  rintro ⟨⟨thread, sleeps⟩, some, outside⟩
  obtain ⟨other, awake, goes⟩ := kept.relieved thread sleeps some
  rcases outside other awake with ⟨_, apart⟩ | ⟨_, _, apart⟩ <;>
    (rw [apart] at goes; cases goes)

end Counting

/-- What a thread is about in a run: it is about to get a buffer, has one, sleeps, was woken, or
has returned from all calls. -/
inductive Phase where
  | asks
  | works
  | sleeps
  | wakes
  | ended

/-- A thread is about that. -/
def Phase.Holds (state : Monitored Unit ι Place (BufferPool ι)) (thread : ι) : Phase → Prop
  | .asks => state.asleep thread = none ∧ state.place thread = .outside [0]
  | .works => state.asleep thread = none ∧ ∃ buffer, state.place thread = .working buffer []
  | .sleeps => state.asleep thread = some () ∧ state.place thread = .woken 0 []
  | .wakes => state.asleep thread = none ∧ state.place thread = .woken 0 []
  | .ended => state.asleep thread = none ∧ state.place thread = .outside []

/-- A thread runs alone: it is at a place, and the others are where they are while the pool has
these buffers. -/
structure Alone (thread : ι) (place : Place) (owner : Option ι) (buffers : List Buffer)
    (phase : ι → Phase) (state : Monitored Unit ι Place (BufferPool ι)) : Prop where
  owner : state.owner () = owner
  buffers : state.world.buffers = buffers.map fun buffer => (some buffer.buff, buffer.size)
  awake : state.asleep thread = none
  here : state.place thread = place
  others : ∀ other, other ≠ thread → (phase other).Holds state other

section Solo

variable {thread : ι} {place next : Place} {owner : Option ι} {buffers : List Buffer}
  {phase : ι → Phase} {state after : Monitored Unit ι Place (BufferPool ι)}

omit [DecidableEq ι] in
/-- What a phase says of a thread rests on where that thread is and on whether it sleeps. -/
theorem Phase.Holds.frame {kind : Phase} (holds : kind.Holds state thread)
    (asleep : after.asleep thread = state.asleep thread)
    (places : after.place thread = state.place thread) : kind.Holds after thread := by
  cases kind <;> simpa only [Phase.Holds, asleep, places] using holds

namespace Alone

/-- The thread goes to another place. -/
theorem goes (alone : Alone thread place owner buffers phase state) :
    Alone thread next owner buffers phase (state.goes thread next) where
  owner := alone.owner
  buffers := alone.buffers
  awake := alone.awake
  here := Monitored.goes_self _ _ _
  others := fun other differ =>
    (alone.others other differ).frame rfl (Monitored.goes_of_ne _ _ _ differ)

/-- A thread that runs alone locks the mutex, which nobody else owns. -/
theorem lock (alone : Alone thread place none buffers phase state)
    (instruction : code thread place = .lock () next) :
    ∃ after, Monitored.Reachable code answerPool state after ∧
      Alone thread next (some thread) buffers phase after := by
  refine ⟨_, .single (.moved (.locked alone.awake (by rw [alone.here]; exact instruction)
    alone.owner)), ?_⟩
  exact goes ⟨Monitored.gives_self _ _ _, alone.buffers, alone.awake, alone.here,
    fun other differ => (alone.others other differ).frame rfl rfl⟩

/-- And it unlocks it again. -/
theorem unlock (alone : Alone thread place owner buffers phase state)
    (instruction : code thread place = .unlock () next) :
    ∃ after, Monitored.Reachable code answerPool state after ∧
      Alone thread next none buffers phase after := by
  refine ⟨_, .single (.moved (.unlocked alone.awake (by rw [alone.here]; exact instruction))), ?_⟩
  exact goes ⟨Monitored.gives_self _ _ _, alone.buffers, alone.awake, alone.here,
    fun other differ => (alone.others other differ).frame rfl rfl⟩

/-- The look at the pool. -/
theorem isEmpty {further : Bool → Place} (alone : Alone thread place owner buffers phase state)
    (instruction : code thread place = .call .isEmpty further) :
    ∃ after, Monitored.Reachable code answerPool state after ∧
      Alone thread (further buffers.isEmpty) owner buffers phase after := by
  have told : state.world.buffers.isEmpty = buffers.isEmpty := by
    rw [alone.buffers]
    cases buffers <;> rfl
  have reply : answerPool thread .isEmpty state.world = some (buffers.isEmpty, state.world) :=
    congrArg (fun empty => some (empty, state.world)) told
  exact ⟨_, .single (.moved (.answered alone.awake (by rw [alone.here]; exact instruction)
    reply)), goes alone⟩

/-- The first buffer is taken. A buffer is large enough for nothing. -/
theorem getBuf {buffer : Buffer} {further : Option Nat × Nat → Place}
    (alone : Alone thread place owner (buffer :: buffers) phase state)
    (instruction : code thread place = .call (.getBuf 0) further) :
    ∃ after, Monitored.Reachable code answerPool state after ∧
      Alone thread (further (some buffer.buff, buffer.size)) owner buffers phase after := by
  have reply : ∃ pool, answerPool thread (.getBuf 0) state.world =
      some ((some buffer.buff, buffer.size), pool) ∧
        pool.buffers = buffers.map fun buffer => (some buffer.buff, buffer.size) := by
    have first := alone.buffers
    rw [List.map_cons] at first
    refine ⟨{ state.world with
      buffers := buffers.map fun buffer => (some buffer.buff, buffer.size)
      held := Function.update state.world.held buffer.buff
        (thread :: state.world.held buffer.buff) }, ?_, rfl⟩
    rw [answerPool, BufferPool.getBuf, first]
    simp
  obtain ⟨pool, made, rest⟩ := reply
  refine ⟨_, .single (.moved (.answered alone.awake (by rw [alone.here]; exact instruction)
    made)), goes ⟨alone.owner, rest, alone.awake, alone.here, ?_⟩⟩
  exact fun other differ => (alone.others other differ).frame rfl rfl

/-- A buffer is added. -/
theorem releaseBuf {buffer : Buffer} {further : Unit → Place}
    (alone : Alone thread place owner buffers phase state)
    (instruction : code thread place = .call (.releaseBuf (some buffer.buff) buffer.size) further) :
    ∃ after, Monitored.Reachable code answerPool state after ∧
      Alone thread (further ()) owner (buffer :: buffers) phase after := by
  have reply : answerPool thread (.releaseBuf (some buffer.buff) buffer.size) state.world =
      some ((), state.world.releaseBuf thread (some buffer.buff) buffer.size) := rfl
  refine ⟨_, .single (.moved (.answered alone.awake (by rw [alone.here]; exact instruction)
    reply)), goes ⟨alone.owner, ?_, alone.awake, alone.here, ?_⟩⟩
  · exact congrArg ((some buffer.buff, buffer.size) :: ·) alone.buffers
  · exact fun other differ => (alone.others other differ).frame rfl rfl

/-- One of the sleepers is woken. -/
theorem signal {sleeper : ι} (alone : Alone thread place owner buffers phase state)
    (instruction : code thread place = .signal () next) (differ : sleeper ≠ thread)
    (sleeps : phase sleeper = .sleeps) :
    ∃ after, Monitored.Reachable code answerPool state after ∧
      Alone thread next owner buffers (Function.update phase sleeper .wakes) after := by
  have dozing := alone.others sleeper differ
  rw [sleeps] at dozing
  refine ⟨_, .single (.moved (.signalled alone.awake (by rw [alone.here]; exact instruction)
    dozing.1)), goes ⟨alone.owner, alone.buffers, ?_, alone.here, ?_⟩⟩
  · simp [Monitored.rouses, differ, alone.awake]
  · intro other apart
    by_cases same : other = sleeper
    · subst same
      rw [Function.update_self]
      exact ⟨by simp [Monitored.rouses], dozing.2⟩
    · rw [Function.update_of_ne same]
      exact (alone.others other apart).frame (by simp [Monitored.rouses, Ne.symm same]) rfl

end Alone

/-- A situation: the mutex is free, the pool has these buffers, and every thread is about
something. -/
structure Situation (buffers : List Buffer) (phase : ι → Phase)
    (state : Monitored Unit ι Place (BufferPool ι)) : Prop where
  owner : state.owner () = none
  buffers : state.world.buffers = buffers.map fun buffer => (some buffer.buff, buffer.size)
  threads : ∀ thread, (phase thread).Holds state thread

omit [DecidableEq ι] in
/-- One thread may run alone. -/
theorem Situation.alone (situation : Situation buffers phase state)
    (awake : state.asleep thread = none) :
    Alone thread (state.place thread) none buffers phase state :=
  ⟨situation.owner, situation.buffers, awake, rfl, fun other _ => situation.threads other⟩

/-- When it has run, it is about something again. -/
theorem Alone.situation {kind : Phase} (alone : Alone thread place none buffers phase state)
    (holds : kind.Holds state thread) :
    Situation buffers (Function.update phase thread kind) state := by
  refine ⟨alone.owner, alone.buffers, ?_⟩
  intro other
  by_cases same : other = thread
  · subst same
    rw [Function.update_self]
    exact holds
  · rw [Function.update_of_ne same]
    exact alone.others other same

/-- A thread that asks for a buffer, or was woken, gets the first one. -/
theorem Situation.takes {buffer : Buffer} (situation : Situation (buffer :: buffers) phase state)
    (goes : phase thread = .asks ∨ phase thread = .wakes) :
    ∃ after, Monitored.Reachable code answerPool state after ∧
      Situation buffers (Function.update phase thread .works) after := by
  have about := situation.threads thread
  have entered : state.asleep thread = none ∧
      code thread (state.place thread) = .lock () (.testing 0 []) := by
    rcases goes with asks | wakes
    · rw [asks] at about
      exact ⟨about.1, by rw [about.2]; rfl⟩
    · rw [wakes] at about
      exact ⟨about.1, by rw [about.2]; rfl⟩
  obtain ⟨first, ran1, alone1⟩ := (situation.alone entered.1).lock entered.2
  obtain ⟨second, ran2, alone2⟩ := alone1.isEmpty rfl
  obtain ⟨third, ran3, alone3⟩ := @Alone.getBuf _ _ _ _ _ _ _ _ buffer _ alone2 rfl
  obtain ⟨fourth, ran4, alone4⟩ := @Alone.unlock _ _ _ _ (.working buffer []) _ _ _ _ alone3 rfl
  exact ⟨fourth, ((ran1.trans ran2).trans ran3).trans ran4,
    alone4.situation ⟨alone4.awake, buffer, alone4.here⟩⟩

/-- A thread that finds the pool empty falls asleep. -/
theorem Situation.dozes (situation : Situation [] phase state) (asks : phase thread = .asks) :
    ∃ after, Monitored.Reachable code answerPool state after ∧
      Situation [] (Function.update phase thread .sleeps) after := by
  have about := situation.threads thread
  rw [asks] at about
  obtain ⟨first, ran1, alone1⟩ := @Alone.lock _ _ _ _ (.testing 0 []) _ _ _
    (situation.alone about.1) (by rw [about.2]; rfl)
  obtain ⟨second, ran2, alone2⟩ := alone1.isEmpty rfl
  have waits : Monitored.Moves code answerPool thread second
      (((second.gives () none).sleeps thread ()).goes thread (.woken 0 [])) :=
    .waited alone2.awake (by rw [alone2.here]; rfl)
  refine ⟨_, (ran1.trans ran2).tail (.moved waits), ?_, alone2.buffers, ?_⟩
  · simp [Monitored.sleeps_owner]
  intro other
  by_cases same : other = thread
  · subst same
    rw [Function.update_self]
    exact ⟨Monitored.sleeps_self _ _ _, Monitored.goes_self _ _ _⟩
  · rw [Function.update_of_ne same]
    exact (alone2.others other same).frame (Monitored.sleeps_of_ne _ _ _ same)
      (Monitored.goes_of_ne _ _ _ same)

/-- A thread that releases a buffer into an empty pool wakes a sleeper. -/
theorem Situation.rouses {sleeper : ι} (situation : Situation [] phase state)
    (works : phase thread = .works) (sleeps : phase sleeper = .sleeps) :
    ∃ buffer after, Monitored.Reachable code answerPool state after ∧
      Situation [buffer] (Function.update (Function.update phase sleeper .wakes) thread .ended)
        after := by
  have about := situation.threads thread
  rw [works] at about
  obtain ⟨awake, buffer, here⟩ := about
  have differ : sleeper ≠ thread := by
    rintro rfl
    cases works.symm.trans sleeps
  obtain ⟨first, ran1, alone1⟩ := @Alone.lock _ _ _ _ (.checking buffer []) _ _ _
    (situation.alone awake) (by rw [here]; rfl)
  obtain ⟨second, ran2, alone2⟩ := alone1.isEmpty rfl
  obtain ⟨third, ran3, alone3⟩ := alone2.releaseBuf rfl
  obtain ⟨fourth, ran4, alone4⟩ := @Alone.signal _ _ _ _ (.leaving []) _ _ _ _ sleeper alone3 rfl
    differ sleeps
  obtain ⟨fifth, ran5, alone5⟩ := @Alone.unlock _ _ _ _ (.outside []) _ _ _ _ alone4 rfl
  exact ⟨buffer, fifth, (((ran1.trans ran2).trans ran3).trans ran4).trans ran5,
    alone5.situation ⟨alone5.awake, alone5.here⟩⟩

/-- A thread that releases a buffer into a pool that has one wakes nobody. -/
theorem Situation.releases (situation : Situation buffers phase state) (some : buffers ≠ [])
    (works : phase thread = .works) :
    ∃ buffer after, Monitored.Reachable code answerPool state after ∧
      Situation (buffer :: buffers) (Function.update phase thread .ended) after := by
  have about := situation.threads thread
  rw [works] at about
  obtain ⟨awake, buffer, here⟩ := about
  have full : buffers.isEmpty = false := List.isEmpty_eq_false_iff.mpr some
  obtain ⟨first, ran1, alone1⟩ := @Alone.lock _ _ _ _ (.checking buffer []) _ _ _
    (situation.alone awake) (by rw [here]; rfl)
  obtain ⟨second, ran2, alone2⟩ := alone1.isEmpty rfl
  rw [full] at alone2
  obtain ⟨third, ran3, alone3⟩ := alone2.releaseBuf rfl
  obtain ⟨fourth, ran4, alone4⟩ := @Alone.unlock _ _ _ _ (.outside []) _ _ _ _ alone3 rfl
  exact ⟨buffer, fourth, ((ran1.trans ran2).trans ran3).trans ran4,
    alone4.situation ⟨alone4.awake, alone4.here⟩⟩

/-- Threads take buffers one after the other. -/
theorem Situation.all_take {threads : List ι} {taken : List Buffer}
    (situation : Situation (taken ++ buffers) phase state) (apart : threads.Nodup)
    (enough : taken.length = threads.length) (ask : ∀ thread ∈ threads, phase thread = .asks) :
    ∃ after reached, Monitored.Reachable code answerPool state reached ∧
      Situation buffers after reached ∧ (∀ thread ∈ threads, after thread = .works) ∧
        ∀ thread, thread ∉ threads → after thread = phase thread := by
  induction threads generalizing taken phase state with
  | nil =>
    rw [List.length_eq_zero_iff.mp enough] at situation
    exact ⟨phase, state, .refl, situation, fun _ absent => absurd absent List.not_mem_nil,
      fun _ _ => rfl⟩
  | cons first rest inductionHypothesis =>
    cases taken with
    | nil => cases enough
    | cons buffer further =>
      obtain ⟨other, distinct⟩ := List.nodup_cons.mp apart
      obtain ⟨next, ran, reached⟩ := situation.takes (Or.inl (ask first List.mem_cons_self))
      obtain ⟨after, last, runs, ends, work, others⟩ := inductionHypothesis reached distinct
        (Nat.succ.inj enough) (by
          intro thread member
          have differ : thread ≠ first := fun same => other (same ▸ member)
          rw [Function.update_of_ne differ]
          exact ask thread (List.mem_cons_of_mem _ member))
      refine ⟨after, last, ran.trans runs, ends, ?_, ?_⟩
      · intro thread member
        rcases List.mem_cons.mp member with rfl | member
        · rw [others thread other, Function.update_self]
        · exact work thread member
      · intro thread absent
        obtain ⟨differ, outside⟩ := List.ne_and_not_mem_of_not_mem_cons absent
        rw [others thread outside, Function.update_of_ne differ]

/-- Threads release their buffers one after the other into a pool that has one. -/
theorem Situation.all_release {threads : List ι} (situation : Situation buffers phase state)
    (some : buffers ≠ []) (apart : threads.Nodup)
    (work : ∀ thread ∈ threads, phase thread = .works) :
    ∃ more after reached, Monitored.Reachable code answerPool state reached ∧
      Situation more after reached ∧ more.length = buffers.length + threads.length ∧
        (∀ thread ∈ threads, after thread = .ended) ∧
        ∀ thread, thread ∉ threads → after thread = phase thread := by
  induction threads generalizing buffers phase state with
  | nil =>
    exact ⟨buffers, phase, state, .refl, situation, rfl,
      fun _ absent => absurd absent List.not_mem_nil, fun _ _ => rfl⟩
  | cons first rest inductionHypothesis =>
    obtain ⟨other, distinct⟩ := List.nodup_cons.mp apart
    obtain ⟨buffer, next, ran, reached⟩ := situation.releases some (work first List.mem_cons_self)
    obtain ⟨more, after, last, runs, ends, length, ended, others⟩ :=
      inductionHypothesis reached (List.cons_ne_nil _ _) distinct (by
        intro thread member
        have differ : thread ≠ first := fun same => other (same ▸ member)
        rw [Function.update_of_ne differ]
        exact work thread (List.mem_cons_of_mem _ member))
    refine ⟨more, after, last, ran.trans runs, ends, ?_, ?_, ?_⟩
    · rw [length, List.length_cons, List.length_cons]
      omega
    · intro thread member
      rcases List.mem_cons.mp member with rfl | member
      · rw [others thread other, Function.update_self]
      · exact ended thread member
    · intro thread absent
      obtain ⟨differ, outside⟩ := List.ne_and_not_mem_of_not_mem_cons absent
      rw [others thread outside, Function.update_of_ne differ]

end Solo

/-- All calls have returned and all buffers are in the pool, but for one call that sleeps. -/
def Abandoned (numBuffers : Nat) (state : Monitored Unit ι Place (BufferPool ι)) : Prop :=
  state.world.buffers.length = numBuffers ∧ ∃ sleeper, state.asleep sleeper = some () ∧
    ∀ other, other ≠ sleeper → state.asleep other = none ∧ state.place other = .outside []

section Abandoning

variable {numBuffers : Nat} {state : Monitored Unit ι Place (BufferPool ι)}

/-- Then no thread can move. -/
theorem Abandoned.still (abandoned : Abandoned numBuffers state) :
    Monitored.Still code answerPool state := by
  obtain ⟨_, sleeper, sleeps, others⟩ := abandoned
  intro thread next moves
  by_cases same : thread = sleeper
  · subst same
    cases sleeps.symm.trans moves.awake.1
  · exact moves.at_end (by rw [(others thread same).2]; rfl)

omit [DecidableEq ι] in
/-- The sleeper is stranded when there are buffers at all. -/
theorem Abandoned.stranded (abandoned : Abandoned numBuffers state) (some : 0 < numBuffers) :
    Stranded state := by
  obtain ⟨length, sleeper, sleeps, others⟩ := abandoned
  refine ⟨⟨sleeper, sleeps⟩, ?_, ?_⟩
  · rw [← List.length_pos_iff]
    omega
  · intro thread awake
    have differ : thread ≠ sleeper := by
      rintro rfl
      cases sleeps.symm.trans awake
    exact Or.inl ⟨[], (others thread differ).2⟩

/-- The pool is drained: these threads have its buffers, two others sleep, and the rest have
returned. -/
structure Drained (first second : ι) (threads : List ι) (phase : ι → Phase) : Prop where
  work : ∀ thread ∈ threads, phase thread = .works
  dozes : phase first = .sleeps
  rests : phase second = .sleeps
  ended : ∀ thread, thread ∉ first :: second :: threads → phase thread = .ended

/-- As many threads as there are buffers take them, and two more sleep meanwhile. -/
theorem drains {first second : ι} {threads : List ι} (bufferLimit : Nat)
    (contents : Nat → Region) (apart : (first :: second :: threads).Nodup) :
    ∃ (sizes : ι → List Nat) (state : _) (phase : _), Monitored.Reachable code answerPool
      (startPool threads.length bufferLimit (fun _ => true) contents sizes) state ∧
        Situation [] phase state ∧ Drained first second threads phase := by
  obtain ⟨outside, apart⟩ := List.nodup_cons.mp apart
  obtain ⟨beside, apart⟩ := List.nodup_cons.mp apart
  obtain ⟨differ, away⟩ := List.ne_and_not_mem_of_not_mem_cons outside
  refine ⟨fun thread => if thread ∈ first :: second :: threads then [0] else [], ?_⟩
  have start : Situation
      ((List.range threads.length).map (fun buff => (⟨buff, bufferLimit⟩ : Buffer)) ++ [])
      (fun thread => if thread ∈ first :: second :: threads then .asks else .ended)
      (startPool threads.length bufferLimit (fun _ => true) contents fun thread =>
        if thread ∈ first :: second :: threads then [0] else []) := by
    refine ⟨rfl, ?_, ?_⟩
    · rw [List.append_nil, List.map_map]
      rfl
    · intro thread
      split_ifs with member
      · exact ⟨rfl, by simp only [startPool, Monitored.start, if_pos member]⟩
      · exact ⟨rfl, by simp only [startPool, Monitored.start, if_neg member]⟩
  obtain ⟨phase, took, ran, situation, work, others⟩ := start.all_take apart (by simp)
    fun thread member => if_pos (List.mem_cons_of_mem _ (List.mem_cons_of_mem _ member))
  have firstAsks : phase first = .asks := by
    rw [others first away, if_pos List.mem_cons_self]
  obtain ⟨dozed, runs, situation⟩ := situation.dozes firstAsks
  replace ran := ran.trans runs
  have secondAsks : Function.update phase first .sleeps second = .asks := by
    rw [Function.update_of_ne differ.symm, others second beside,
      if_pos (List.mem_cons_of_mem _ List.mem_cons_self)]
  obtain ⟨both, runs, situation⟩ := situation.dozes secondAsks
  refine ⟨both, _, ran.trans runs, situation, ?_, ?_, ?_, ?_⟩
  · intro thread member
    have notFirst : thread ≠ first := fun same => away (same ▸ member)
    have notSecond : thread ≠ second := fun same => beside (same ▸ member)
    rw [Function.update_of_ne notSecond, Function.update_of_ne notFirst]
    exact work thread member
  · rw [Function.update_of_ne differ, Function.update_self]
  · rw [Function.update_self]
  · intro thread absent
    obtain ⟨notFirst, elsewhere⟩ := List.ne_and_not_mem_of_not_mem_cons absent
    obtain ⟨notSecond, unlisted⟩ := List.ne_and_not_mem_of_not_mem_cons elsewhere
    rw [Function.update_of_ne notSecond, Function.update_of_ne notFirst, others thread unlisted,
      if_neg absent]

/-- From there on the first release wakes one of the two, and the others wake nobody. The second
sleeps on when everybody has returned. -/
theorem oversleeps {first second releaser : ι} {rest : List ι} {phase : ι → Phase}
    (apart : (first :: second :: releaser :: rest).Nodup) (some : rest ≠ [])
    (situation : Situation [] phase state)
    (drained : Drained first second (releaser :: rest) phase) :
    ∃ after, Monitored.Reachable code answerPool state after ∧
      Abandoned (releaser :: rest).length after := by
  obtain ⟨outside, apart⟩ := List.nodup_cons.mp apart
  obtain ⟨beside, apart⟩ := List.nodup_cons.mp apart
  obtain ⟨alone, distinct⟩ := List.nodup_cons.mp apart
  obtain ⟨differ, away⟩ := List.ne_and_not_mem_of_not_mem_cons outside
  obtain ⟨notFirst, outsideRest⟩ := List.ne_and_not_mem_of_not_mem_cons away
  obtain ⟨notSecond, besideRest⟩ := List.ne_and_not_mem_of_not_mem_cons beside
  obtain ⟨buffer, roused, ran, situation⟩ :=
    situation.rouses (drained.work releaser List.mem_cons_self) drained.dozes
  obtain ⟨more, kinds, released, runs, situation, length, ended, kept⟩ :=
    situation.all_release (List.cons_ne_nil _ _) distinct (by
      intro thread member
      have notReleaser : thread ≠ releaser := fun same => alone (same ▸ member)
      have unlike : thread ≠ first := fun same => outsideRest (same ▸ member)
      rw [Function.update_of_ne notReleaser, Function.update_of_ne unlike]
      exact drained.work thread (List.mem_cons_of_mem _ member))
  replace ran := ran.trans runs
  have wakes : kinds first = .wakes := by
    rw [kept first outsideRest, Function.update_of_ne notFirst, Function.update_self]
  have sleeps : kinds second = .sleeps := by
    rw [kept second besideRest, Function.update_of_ne notSecond,
      Function.update_of_ne differ.symm, drained.rests]
  have returned : ∀ other, other ≠ first → other ≠ second → kinds other = .ended := by
    intro other unlike elsewhere
    by_cases member : other ∈ rest
    · exact ended other member
    · rw [kept other member]
      by_cases same : other = releaser
      · rw [same, Function.update_self]
      · rw [Function.update_of_ne same, Function.update_of_ne unlike]
        exact drained.ended other (by simp [unlike, elsewhere, same, member])
  have count : more.length = rest.length + 1 := by
    rw [length, List.length_singleton, Nat.add_comm]
  cases more with
  | nil => cases count
  | cons top left =>
    obtain ⟨taken, runs, situation⟩ := situation.takes (Or.inr wakes)
    replace ran := ran.trans runs
    have further : left ≠ [] := by
      rintro rfl
      exact some (List.length_eq_zero_iff.mp (Nat.succ.inj count).symm)
    obtain ⟨last, final, runs, situation⟩ := situation.releases further
      (Function.update_self first _ kinds)
    refine ⟨final, ran.trans runs, ?_, second, ?_, ?_⟩
    · rw [situation.buffers, List.length_map]
      exact count
    · have holds := situation.threads second
      rw [Function.update_of_ne differ.symm, Function.update_of_ne differ.symm, sleeps] at holds
      exact holds.1
    · intro other elsewhere
      have holds := situation.threads other
      by_cases unlike : other = first
      · subst unlike
        rw [Function.update_self] at holds
        exact holds
      · rw [Function.update_of_ne unlike, Function.update_of_ne unlike,
          returned other unlike elsewhere] at holds
        exact holds

/-- With two buffers or more, and two threads beside those that take them, a call is abandoned
in some run. -/
theorem abandons {first second : ι} {threads : List ι} (bufferLimit : Nat)
    (contents : Nat → Region) (apart : (first :: second :: threads).Nodup)
    (two : 2 ≤ threads.length) :
    ∃ (sizes : ι → List Nat) (state : _), Monitored.Reachable code answerPool
      (startPool threads.length bufferLimit (fun _ => true) contents sizes) state ∧
        Abandoned threads.length state := by
  obtain ⟨sizes, state, phase, ran, situation, drained⟩ := drains bufferLimit contents apart
  cases threads with
  | nil => cases two
  | cons releaser rest =>
    have some : rest ≠ [] := by
      rintro rfl
      simp at two
    obtain ⟨after, runs, abandoned⟩ := oversleeps apart some situation drained
    exact ⟨sizes, after, ran.trans runs, abandoned⟩

omit [DecidableEq ι] in
/-- Among enough threads there are two and as many more as there are buffers. -/
theorem exists_threads [Fintype ι] (many : numBuffers + 2 ≤ Fintype.card ι) :
    ∃ (first second : ι) (threads : List ι), (first :: second :: threads).Nodup ∧
      threads.length = numBuffers := by
  have length : (Finset.univ : Finset ι).toList.length = Fintype.card ι := Finset.length_toList _
  have apart := Finset.nodup_toList (Finset.univ : Finset ι)
  cases all : (Finset.univ : Finset ι).toList with
  | nil =>
    rw [all] at length
    simp at length
    omega
  | cons first others =>
    cases others with
    | nil =>
      rw [all] at length
      simp at length
      omega
    | cons second rest =>
      rw [all] at length apart
      simp only [List.length_cons] at length
      refine ⟨first, second, rest.take numBuffers, ?_, ?_⟩
      · exact apart.sublist (((List.take_sublist _ _).cons_cons _).cons_cons _)
      · rw [List.length_take]
        omega

/-- Nobody is ever stranded next to a buffer exactly when the pool has one buffer at most, or
there is at most one thread more than there are buffers; the second is enough whichever
allocations fail. In every other case threads can come to a standstill in which all calls
have returned and all buffers are in the pool but for one call that sleeps. -/
theorem buffer_wake_ups [Fintype ι] (numBuffers bufferLimit : Nat) (contents : Nat → Region) :
    ((∀ (sizes : ι → List Nat) (state : Monitored Unit ι Place (BufferPool ι)),
        Monitored.Reachable code answerPool
          (startPool numBuffers bufferLimit (fun _ => true) contents sizes) state →
          ¬Stranded state) ↔
      numBuffers ≤ 1 ∨ Fintype.card ι ≤ numBuffers + 1) ∧
    (Fintype.card ι ≤ numBuffers + 1 → ∀ (memory : Nat → Bool) (sizes : ι → List Nat)
      (state : Monitored Unit ι Place (BufferPool ι)), Monitored.Reachable code answerPool
        (startPool numBuffers bufferLimit memory contents sizes) state → ¬Stranded state) ∧
    (¬(numBuffers ≤ 1 ∨ Fintype.card ι ≤ numBuffers + 1) →
      ∃ (sizes : ι → List Nat) (state : Monitored Unit ι Place (BufferPool ι)),
        Monitored.Reachable code answerPool
          (startPool numBuffers bufferLimit (fun _ => true) contents sizes) state ∧
        Monitored.Still code answerPool state ∧ Abandoned numBuffers state) := by
  have leaves : ¬(numBuffers ≤ 1 ∨ Fintype.card ι ≤ numBuffers + 1) →
      ∃ (sizes : ι → List Nat) (state : Monitored Unit ι Place (BufferPool ι)),
        Monitored.Reachable code answerPool
          (startPool numBuffers bufferLimit (fun _ => true) contents sizes) state ∧
        Monitored.Still code answerPool state ∧ Abandoned numBuffers state := by
    intro many
    obtain ⟨some, enough⟩ := not_or.mp many
    obtain ⟨first, second, threads, apart, rfl⟩ := @exists_threads ι numBuffers _ (by omega)
    obtain ⟨sizes, state, run, abandoned⟩ := abandons bufferLimit contents apart (by omega)
    exact ⟨sizes, state, run, abandoned.still, abandoned⟩
  refine ⟨⟨?_, ?_⟩, fun few memory sizes state run => few_never_stranded few run, leaves⟩
  · intro never
    by_contra many
    obtain ⟨sizes, state, run, _, abandoned⟩ := leaves many
    exact never sizes state run (abandoned.stranded (by omega))
  · rintro (single | few) sizes state run
    · exact single_never_stranded single (fun _ => rfl) run
    · exact few_never_stranded few run

end Abandoning

end NvmKvBufferPool

end Nvmkv
