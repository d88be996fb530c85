import Mathlib.Data.Set.Finite.Basic
import Mathlib.Order.Preorder.Finite
import Nvmkv.Interleaving

/-!
# Waiting in order

Programs of a shared machine that has locks. A lock is asked for without waiting
first, and a call that waits for a lock is made only when the call before it was
refused that lock. If a refused thread holds only lower locks, then no threads can
wait for each other in a circle, in any interleaving: the thread of a circle that
waits for the highest lock would be waited for by one that waits for a higher one.

The order is asked for where a lock is refused, and not where it is taken, so that
threads which never meet may take their locks in any order.
-/

namespace Nvmkv

variable {Op : Type} {Res : Op → Type} {α β : Type} {σ ι κ : Type}

/-- A machine with locks: which lock a call waits for, which lock an answer
refuses, and which thread holds a lock. -/
structure Locks (Op : Type) (Res : Op → Type) (σ ι κ : Type) where
  awaits : Op → Option κ
  refused : (op : Op) → Res op → Option κ
  holder : σ → κ → Option ι

namespace Locks

variable (locks : Locks Op Res σ ι κ)

/-- Every waiting call of the program comes right after the refusal of its lock.
What was refused last is given for the first call. -/
def WaitsWhenRefused : Option κ → Program Op Res α → Prop
  | _, .done _ => True
  | last, .call op next =>
      (∀ lock, locks.awaits op = some lock → last = some lock) ∧
        ∀ answer, WaitsWhenRefused (locks.refused op answer) (next answer)

variable {locks}

/-- A program that does not start with a wait may follow a refusal. -/
theorem WaitsWhenRefused.weaken {program : Program Op Res α}
    (waits : locks.WaitsWhenRefused none program) (last : Option κ) :
    locks.WaitsWhenRefused last program := by
  cases program with
  | done result => exact trivial
  | call op next =>
    obtain ⟨first, rest⟩ := waits
    refine ⟨?_, rest⟩
    intro lock awaited
    exact absurd (first lock awaited) (Option.some_ne_none lock).symm

/-- Programs in sequence. -/
theorem WaitsWhenRefused.bind {program : Program Op Res α} {rest : α → Program Op Res β}
    {last : Option κ} (waits : locks.WaitsWhenRefused last program)
    (further : ∀ result, locks.WaitsWhenRefused none (rest result)) :
    locks.WaitsWhenRefused last (program >>= rest) := by
  induction program generalizing last with
  | done result => exact (further result).weaken last
  | call op next inductionHypothesis =>
    obtain ⟨first, following⟩ := waits
    exact ⟨first, fun answer => inductionHypothesis answer (following answer)⟩

/-- A call that does not wait. -/
theorem WaitsWhenRefused.perform {op : Op} (free : locks.awaits op = none) :
    locks.WaitsWhenRefused none (Program.perform op : Program Op Res (Res op)) := by
  refine ⟨?_, fun _ => trivial⟩
  intro lock awaited
  rw [free] at awaited
  exact awaited

/-- The threads of a set wait for each other: each of them is at a call that waits
for a lock which another thread of the set holds. -/
def CircularWait (locks : Locks Op Res σ ι κ) (config : Config Op Res α σ ι) (circle : Set ι) :
    Prop :=
  circle.Nonempty ∧ ∀ thread ∈ circle, ∃ op next lock other,
    config.threads thread = .call op next ∧ locks.awaits op = some lock ∧
      locks.holder config.shared lock = some other ∧ other ∈ circle ∧ other ≠ thread

variable [LinearOrder κ]

/-- The order in which locks have to be waited for: a thread that is refused a lock
holds only lower ones. -/
def RefusedInOrder (locks : Locks Op Res σ ι κ) (thread : ι) (op : Op) (state : σ) : Prop :=
  ∀ lock, (∃ answer, locks.refused op answer = some lock) →
    (∃ other, locks.holder state lock = some other) →
      ∀ held, locks.holder state held = some thread → held < lock

/-- How a machine treats its locks: a lock is refused only while it is held, and a
refusal changes no lock; a step of one thread gives no lock to another; finitely
many locks are held. -/
structure Lawful (locks : Locks Op Res σ ι κ) (handle : ι → Program.Handler Op Res σ) : Prop where
  refusal : ∀ thread op state answer after lock, handle thread op state = some (answer, after) →
    locks.refused op answer = some lock →
      (∃ other, locks.holder state lock = some other) ∧
        ∀ held, locks.holder after held = some thread → locks.holder state held = some thread
  others : ∀ thread op state answer after, handle thread op state = some (answer, after) →
    ∀ other, other ≠ thread → ∀ held, locks.holder after held = some other →
      locks.holder state held = some other
  finite : ∀ thread op state answer after, handle thread op state = some (answer, after) →
    {lock | locks.holder state lock ≠ none}.Finite → {lock | locks.holder after lock ≠ none}.Finite

/-- What holds of every thread between two steps: its program waits when refused,
and a lock that it was refused last is above those it holds. -/
def InOrder (locks : Locks Op Res σ ι κ) (config : Config Op Res α σ ι) (thread : ι) : Prop :=
  ∃ last, locks.WaitsWhenRefused last (config.threads thread) ∧
    ∀ lock, last = some lock → ∀ held, locks.holder config.shared held = some thread → held < lock

/-- A step keeps the order: the mover was refused in order, and nobody else holds
more than before. -/
theorem InOrder.step [DecidableEq ι] {handle : ι → Program.Handler Op Res σ}
    (lawful : locks.Lawful handle) {config next : Config Op Res α σ ι}
    (ordered : ∀ thread, locks.InOrder config thread)
    (taken : Config.Step handle locks.RefusedInOrder config next) (thread : ι) :
    locks.InOrder next thread := by
  cases taken with
  | answered mover op rest answer after pending admitted reply =>
    by_cases moved : thread = mover
    · subst moved
      obtain ⟨last, waits, _⟩ := ordered thread
      rw [pending] at waits
      refine ⟨locks.refused op answer, ?_, ?_⟩
      · simpa only [Function.update_self] using waits.2 answer
      · intro lock refused held holds
        obtain ⟨taken, same⟩ := lawful.refusal thread op _ answer after lock reply refused
        exact admitted lock ⟨answer, refused⟩ taken held (same held holds)
    · obtain ⟨last, waits, above⟩ := ordered thread
      refine ⟨last, ?_, ?_⟩
      · simpa only [Function.update_of_ne moved] using waits
      · intro lock refused held holds
        exact above lock refused held
          (lawful.others mover op _ answer after reply thread moved held holds)

/-- In order, nobody waits in a circle. The locks that a circle waits for are held, hence there is a
highest one among them. -/
theorem not_circularWait {config : Config Op Res α σ ι}
    (ordered : ∀ thread, locks.InOrder config thread)
    (finite : {lock | locks.holder config.shared lock ≠ none}.Finite) (circle : Set ι) :
    ¬locks.CircularWait config circle := by
  rintro ⟨⟨first, member⟩, waiting⟩
  let awaited : Set κ := {lock | ∃ thread ∈ circle, ∃ op next other,
    config.threads thread = .call op next ∧ locks.awaits op = some lock ∧
      locks.holder config.shared lock = some other ∧ other ∈ circle ∧ other ≠ thread}
  have bounded : awaited.Finite := by
    refine finite.subset ?_
    rintro lock ⟨_, _, _, _, other, _, _, held, _⟩
    rw [Set.mem_ofPred_eq, held]
    exact Option.some_ne_none other
  have nonempty : awaited.Nonempty := by
    obtain ⟨op, next, lock, other, at_, waits, held, among, apart⟩ := waiting first member
    exact ⟨lock, first, member, op, next, other, at_, waits, held, among, apart⟩
  obtain ⟨highest, ⟨thread, _, op, next, other, _, _, held, among, _⟩, maximal⟩ :=
    bounded.exists_maximal nonempty
  obtain ⟨otherOp, otherNext, lock, third, pending, waits, taken, listed, apart⟩ :=
    waiting other among
  obtain ⟨last, refused, above⟩ := ordered other
  rw [pending] at refused
  have lower : highest < lock := above lock (refused.1 lock waits) highest held
  have belongs : lock ∈ awaited :=
    ⟨other, among, otherOp, otherNext, third, pending, waits, taken, listed, apart⟩
  exact absurd (maximal belongs (le_of_lt lower)) (not_le_of_gt lower)

/-- Programs that wait only when refused never wait in a circle, if they are refused
in order. -/
theorem reachable_not_circularWait [DecidableEq ι] {handle : ι → Program.Handler Op Res σ}
    (lawful : locks.Lawful handle) {start config : Config Op Res α σ ι}
    (programs : ∀ thread, locks.WaitsWhenRefused none (start.threads thread))
    (finite : {lock | locks.holder start.shared lock ≠ none}.Finite)
    (reached : Config.Reachable handle locks.RefusedInOrder start config) (circle : Set ι) :
    ¬locks.CircularWait config circle := by
  have kept : (∀ thread, locks.InOrder config thread) ∧
      {lock | locks.holder config.shared lock ≠ none}.Finite := by
    induction reached with
    | start =>
      refine ⟨fun thread => ⟨none, programs thread, ?_⟩, finite⟩
      intro lock impossible
      exact absurd impossible (Option.some_ne_none lock).symm
    | step _ taken inductionHypothesis =>
      obtain ⟨ordered, few⟩ := inductionHypothesis
      refine ⟨InOrder.step lawful ordered taken, ?_⟩
      cases taken with
      | answered mover op next answer after _ _ reply =>
        exact lawful.finite mover op _ answer after reply few
  exact not_circularWait kept.1 kept.2 circle

end Locks

end Nvmkv
