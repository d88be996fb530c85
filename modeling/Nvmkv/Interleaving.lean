import Mathlib.Logic.Function.Basic
import Mathlib.Tactic.Choose
import Nvmkv.Programs

/-!
# Interleavings and proof outlines

Several programs run over one machine. A step lets one of them make its next
call; the others keep their place. Reachable configurations are those of any
finite interleaving whose calls meet a given condition, so the same notion
covers all interleavings and those that avoid a named situation.

A proof outline annotates one program with assertions on the machine's state.
Each assertion survives what the other programs may do (the rely of its
thread), each call is shown to be safe where it is made, and each answer gives
the assertion that the rest of the program starts from. Outlines of the single
programs give the safety of every interleaving of them (`Discipline.sound`):
no interleaving is ever enumerated.
-/

namespace Nvmkv

variable {Op : Type} {Res : Op → Type} {α β : Type} {σ ι : Type}

/-- The machine's state and what is left of each thread's program. -/
structure Config (Op : Type) (Res : Op → Type) (α σ ι : Type) where
  shared : σ
  threads : ι → Program Op Res α

/-- What is left of a program after some of its calls were answered, without a call of
another program in between. -/
inductive Program.Moves (handle : Program.Handler Op Res σ) :
    Program Op Res α → σ → Program Op Res α → σ → Prop
  | still (program : Program Op Res α) (state : σ) : Moves handle program state program state
  | answered {op : Op} {next : Res op → Program Op Res α} {state after reached : σ}
      {answer : Res op} {rest : Program Op Res α}
      (reply : handle op state = some (answer, after))
      (further : Moves handle (next answer) after rest reached) :
      Moves handle (.call op next) state rest reached

namespace Program.Moves

variable {handle : Program.Handler Op Res σ}

/-- A first part that runs to its end leaves the rest of a sequence. -/
theorem seq {first : Program Op Res α} {rest : α → Program Op Res β} {state middle reached : σ}
    {result : α} {ends : Program Op Res β} (ran : first.run handle state = some (result, middle))
    (further : Moves handle (rest result) middle ends reached) :
    Moves handle (first >>= rest) state ends reached := by
  induction first generalizing state with
  | done returned =>
    obtain ⟨rfl, rfl⟩ := Prod.mk.inj (Option.some.inj ran)
    exact further
  | call op next inductionHypothesis =>
    rw [Program.run_call] at ran
    obtain ⟨⟨answer, after⟩, reply, later⟩ := Option.bind_eq_some_iff.mp ran
    exact .answered reply (inductionHypothesis answer later)

/-- A run alone is a way to its end. -/
theorem of_run {program : Program Op Res α} {state reached : σ} {result : α}
    (ran : program.run handle state = some (result, reached)) :
    Moves handle program state (.done result) reached := by
  induction program generalizing state with
  | done returned =>
    obtain ⟨rfl, rfl⟩ := Prod.mk.inj (Option.some.inj ran)
    exact .still _ _
  | call op next inductionHypothesis =>
    rw [Program.run_call] at ran
    obtain ⟨⟨answer, after⟩, reply, later⟩ := Option.bind_eq_some_iff.mp ran
    exact .answered reply (inductionHypothesis answer later)

/-- The calls of a first part are calls of the sequence. -/
theorem bind {first remaining : Program Op Res α} {state reached : σ}
    (moves : Moves handle first state remaining reached) (rest : α → Program Op Res β) :
    Moves handle (first >>= rest) state (remaining >>= rest) reached := by
  induction moves with
  | still program state => exact .still _ _
  | answered reply further inductionHypothesis => exact .answered reply inductionHypothesis

/-- Ways follow one another. -/
theorem trans {program middle rest : Program Op Res α} {state between reached : σ}
    (first : Moves handle program state middle between)
    (second : Moves handle middle between rest reached) :
    Moves handle program state rest reached := by
  induction first with
  | still program state => exact second
  | answered reply further inductionHypothesis => exact .answered reply (inductionHypothesis second)

end Program.Moves

namespace Config

variable [DecidableEq ι]

/-- One thread makes its next call and the machine answers it. -/
inductive Step (handle : ι → Program.Handler Op Res σ) (allowed : ι → (op : Op) → σ → Prop) :
    Config Op Res α σ ι → Config Op Res α σ ι → Prop
  | answered (config : Config Op Res α σ ι) (thread : ι) (op : Op)
      (next : Res op → Program Op Res α) (answer : Res op) (after : σ)
      (pending : config.threads thread = .call op next)
      (admitted : allowed thread op config.shared)
      (reply : handle thread op config.shared = some (answer, after)) :
      Step handle allowed config
        ⟨after, Function.update config.threads thread (next answer)⟩

/-- The configurations of all interleavings whose calls are all allowed. -/
inductive Reachable (handle : ι → Program.Handler Op Res σ)
    (allowed : ι → (op : Op) → σ → Prop) (start : Config Op Res α σ ι) :
    Config Op Res α σ ι → Prop
  | start : Reachable handle allowed start start
  | step {config next : Config Op Res α σ ι} (reached : Reachable handle allowed start config)
      (taken : Step handle allowed config next) : Reachable handle allowed start next

/-- What a program can return stays so while its calls are answered. -/
theorem Reachable.returns {handle : ι → Program.Handler Op Res σ}
    {allowed : ι → (op : Op) → σ → Prop} {start config : Config Op Res α σ ι} {thread : ι}
    {ends : α → Prop} (reached : Reachable handle allowed start config)
    (returns : (start.threads thread).Returns ends) :
    (config.threads thread).Returns ends := by
  induction reached with
  | start => exact returns
  | step reached taken inductionHypothesis =>
    cases taken with
    | answered mover op next answer after pending admitted reply =>
      by_cases moved : thread = mover
      · subst moved
        rw [pending] at inductionHypothesis
        simpa only [Function.update_self] using inductionHypothesis answer
      · simpa only [Function.update_of_ne moved] using inductionHypothesis

/-- A thread that is at a call and gets an answer makes a step. Concrete runs
are built from this with the thread, the answer and the state written out. -/
theorem Reachable.advance {handle : ι → Program.Handler Op Res σ}
    {allowed : ι → (op : Op) → σ → Prop} {start : Config Op Res α σ ι} {shared : σ}
    {threads : ι → Program Op Res α}
    (reached : Reachable handle allowed start ⟨shared, threads⟩)
    (thread : ι) {op : Op} {next : Res op → Program Op Res α} (answer : Res op) (after : σ)
    (pending : threads thread = .call op next) (admitted : allowed thread op shared)
    (reply : handle thread op shared = some (answer, after)) :
    Reachable handle allowed start ⟨after, Function.update threads thread (next answer)⟩ :=
  .step reached (.answered ⟨shared, threads⟩ thread op next answer after pending admitted reply)

/-- A thread may make several calls in a row when each of them is allowed. -/
theorem Reachable.moves_throughout {handle : ι → Program.Handler Op Res σ}
    {allowed : ι → (op : Op) → σ → Prop} {start : Config Op Res α σ ι} {shared after : σ}
    {threads : ι → Program Op Res α}
    (reached : Reachable handle allowed start ⟨shared, threads⟩) (thread : ι)
    {program rest : Program Op Res α} (pending : threads thread = program)
    (throughout : program.Throughout (handle thread) (allowed thread) shared)
    (moves : Program.Moves (handle thread) program shared rest after) :
    Reachable handle allowed start ⟨after, Function.update threads thread rest⟩ := by
  induction moves generalizing threads with
  | still program state =>
    rw [← pending, Function.update_eq_self]
    exact reached
  | answered reply further inductionHypothesis =>
    obtain ⟨admitted, later⟩ := throughout
    have stepped := reached.advance thread _ _ pending admitted reply
    have continued := inductionHypothesis stepped (Function.update_self _ _ _)
      (later _ _ reply)
    rwa [Function.update_idem] at continued

/-- Without a condition on the calls it may always do so. -/
theorem Reachable.moves {handle : ι → Program.Handler Op Res σ}
    {start : Config Op Res α σ ι} {shared after : σ} {threads : ι → Program Op Res α}
    (reached : Reachable handle (fun _ _ _ => True) start ⟨shared, threads⟩) (thread : ι)
    {program rest : Program Op Res α} (pending : threads thread = program)
    (moves : Program.Moves (handle thread) program shared rest after) :
    Reachable handle (fun _ _ _ => True) start ⟨after, Function.update threads thread rest⟩ := by
  have anything : program.Calls fun _ => True := .any fun _ => trivial
  exact reached.moves_throughout thread pending (anything.throughout (fun _ _ _ => trivial) _) moves

end Config

/-- What the threads of a system owe each other. The invariant holds between
any two steps. The rely of a thread bounds what the steps of the others do to
the state. A call may be made under `allowed` and has to be `checked`. -/
structure Discipline (Op : Type) (σ ι : Type) where
  invariant : σ → Prop
  rely : ι → σ → σ → Prop
  allowed : ι → (op : Op) → σ → Prop
  checked : ι → (op : Op) → σ → Prop

namespace Discipline

variable (discipline : Discipline Op σ ι) (handle : ι → Program.Handler Op Res σ)

/-- An assertion that the steps of the other threads cannot falsify. -/
def Stable (thread : ι) (assertion : σ → Prop) : Prop :=
  ∀ before after, discipline.invariant before → discipline.invariant after →
    discipline.rely thread before after → assertion before → assertion after

/-- The program of a thread, started under `before`, makes checked calls only,
keeps the discipline and returns a result with `after`. At a call the assertion
may be weakened to a stable one; the assertion after the answer is chosen from
the answer and the state. -/
def Outline (thread : ι) : Program Op Res α → (σ → Prop) → (α → σ → Prop) → Prop
  | .done result, before, after =>
      ∀ state, discipline.invariant state → before state → after result state
  | .call op next, before, after =>
      ∃ held : σ → Prop, discipline.Stable thread held ∧
        (∀ state, discipline.invariant state → before state → held state) ∧
        ∀ state, discipline.invariant state → held state →
          discipline.checked thread op state ∧
          ∀ answer reached, discipline.allowed thread op state →
            handle thread op state = some (answer, reached) →
            discipline.invariant reached ∧
            (∀ other, other ≠ thread → discipline.rely other state reached) ∧
            ∃ following : σ → Prop, following reached ∧
              Outline thread (next answer) following after

variable {discipline} {handle}

/-- An outline may be started under a stronger assertion. -/
theorem Outline.strengthen {thread : ι} {program : Program Op Res α} {before stronger : σ → Prop}
    {after : α → σ → Prop}
    (outline : discipline.Outline handle thread program before after)
    (implies : ∀ state, discipline.invariant state → stronger state → before state) :
    discipline.Outline handle thread program stronger after := by
  cases program with
  | done result =>
    intro state invariant holds
    exact outline state invariant (implies state invariant holds)
  | call op next =>
    obtain ⟨held, stable, weakened, made⟩ := outline
    exact ⟨held, stable, fun state invariant holds =>
      weakened state invariant (implies state invariant holds), made⟩

/-- Outlines compose along a sequence. Induction follows the calls of the first
program; its returned result starts the outline of the second. -/
theorem Outline.bind {thread : ι} {program : Program Op Res α} {rest : α → Program Op Res β}
    {before : σ → Prop} {between : α → σ → Prop} {after : β → σ → Prop}
    (first : discipline.Outline handle thread program before between)
    (second : ∀ result, discipline.Outline handle thread (rest result) (between result) after) :
    discipline.Outline handle thread (program >>= rest) before after := by
  induction program generalizing before with
  | done result => exact (second result).strengthen first
  | call op next inductionHypothesis =>
    obtain ⟨held, stable, weakened, made⟩ := first
    refine ⟨held, stable, weakened, ?_⟩
    intro state invariant holds
    obtain ⟨safe, answered⟩ := made state invariant holds
    refine ⟨safe, ?_⟩
    intro answer reached allowed reply
    obtain ⟨kept, relied, following, starts, outline⟩ := answered answer reached allowed reply
    exact ⟨kept, relied, following, starts, inductionHypothesis answer outline⟩

/-- An outline may promise less of the result. -/
theorem Outline.weaken {thread : ι} {program : Program Op Res α} {before : σ → Prop}
    {after weaker : α → σ → Prop}
    (outline : discipline.Outline handle thread program before after)
    (implies : ∀ result state, discipline.invariant state → after result state →
      weaker result state) :
    discipline.Outline handle thread program before weaker := by
  induction program generalizing before with
  | done result =>
    exact fun state invariant holds => implies _ _ invariant (outline state invariant holds)
  | call op next inductionHypothesis =>
    obtain ⟨held, stable, weakened, made⟩ := outline
    refine ⟨held, stable, weakened, ?_⟩
    intro state invariant holds
    obtain ⟨safe, answered⟩ := made state invariant holds
    refine ⟨safe, ?_⟩
    intro answer reached allowed reply
    obtain ⟨kept, relied, following, starts, outline⟩ := answered answer reached allowed reply
    exact ⟨kept, relied, following, starts, inductionHypothesis answer outline⟩

/-- What an assertion says apart from the state may be used to outline the program
that starts under it. -/
theorem Outline.given {thread : ι} {program : Program Op Res α} {before : σ → Prop}
    {after : α → σ → Prop} {fact : Prop}
    (outline : fact → discipline.Outline handle thread program before after) :
    discipline.Outline handle thread program (fun state => before state ∧ fact) after := by
  by_cases holds : fact
  · exact (outline holds).strengthen fun _ _ starts => starts.1
  · cases program with
    | done result => exact fun _ _ starts => absurd starts.2 holds
    | call op next =>
      exact ⟨fun _ => False, fun _ _ _ _ _ => id, fun _ _ starts => holds starts.2,
        fun _ _ impossible => impossible.elim⟩

/-- A program that is outlined from each of some assertions may be started under any
of them. -/
theorem Outline.chosen {γ : Type} {thread : ι} {program : Program Op Res α}
    {before : γ → σ → Prop} {after : α → σ → Prop}
    (outline : ∀ choice, discipline.Outline handle thread program (before choice) after) :
    discipline.Outline handle thread program (fun state => ∃ choice, before choice state)
      after := by
  cases program with
  | done result => exact fun state invariant ⟨choice, holds⟩ => outline choice state invariant holds
  | call op next =>
    choose held stable weakened made using outline
    refine ⟨fun state => ∃ choice, held choice state, ?_, ?_, ?_⟩
    · exact fun first second before after relied ⟨choice, holds⟩ =>
        ⟨choice, stable choice first second before after relied holds⟩
    · exact fun state invariant ⟨choice, holds⟩ => ⟨choice, weakened choice state invariant holds⟩
    · exact fun state invariant ⟨choice, holds⟩ => made choice state invariant holds

/-- One call made under a stable assertion, with the assertion that its answer
gives. -/
theorem Outline.perform {thread : ι} {op : Op} {before : σ → Prop} {after : Res op → σ → Prop}
    (stable : discipline.Stable thread before)
    (made : ∀ state, discipline.invariant state → before state →
      discipline.checked thread op state ∧
      ∀ answer reached, discipline.allowed thread op state →
        handle thread op state = some (answer, reached) →
        discipline.invariant reached ∧
        (∀ other, other ≠ thread → discipline.rely other state reached) ∧
        after answer reached) :
    discipline.Outline handle thread (Program.perform op) before after := by
  refine ⟨before, stable, fun _ _ holds => holds, ?_⟩
  intro state invariant holds
  obtain ⟨safe, answered⟩ := made state invariant holds
  refine ⟨safe, ?_⟩
  intro answer reached allowed reply
  obtain ⟨kept, relied, starts⟩ := answered answer reached allowed reply
  exact ⟨kept, relied, after answer, starts, fun _ _ holds => holds⟩

/-- A choice between two programs is outlined branch by branch. -/
theorem Outline.ite {thread : ι} {condition : Prop} [Decidable condition]
    {first second : Program Op Res α} {before : σ → Prop} {after : α → σ → Prop}
    (chosen : condition → discipline.Outline handle thread first before after)
    (otherwise : ¬condition → discipline.Outline handle thread second before after) :
    discipline.Outline handle thread (if condition then first else second) before after := by
  by_cases holds : condition
  · rw [if_pos holds]
    exact chosen holds
  · rw [if_neg holds]
    exact otherwise holds

/-- What a program of a thread returns, each of its calls being answered in a state in which the
invariant holds and the call is allowed. An outline says besides that the program keeps the
discipline; what is learned may be used behind one. -/
def Learns (discipline : Discipline Op σ ι) (handle : ι → Program.Handler Op Res σ) (thread : ι)
    (ends : α → Prop) : Program Op Res α → Prop
  | .done result => ends result
  | .call op next => ∀ state answer reached, discipline.invariant state →
      discipline.allowed thread op state → handle thread op state = some (answer, reached) →
      Learns discipline handle thread ends (next answer)

/-- What a program always returns is learned from it. Induction follows the calls. -/
theorem Learns.of_returns {thread : ι} {ends : α → Prop} {program : Program Op Res α}
    (returns : program.Returns ends) : discipline.Learns handle thread ends program := by
  induction program with
  | done result => exact returns
  | call op next inductionHypothesis =>
    exact fun _ answer _ _ _ _ => inductionHypothesis answer (returns answer)

/-- What one call lets its thread know. -/
theorem Learns.perform {thread : ι} {op : Op} {ends : Res op → Prop}
    (told : ∀ state answer reached, discipline.invariant state →
      discipline.allowed thread op state → handle thread op state = some (answer, reached) →
      ends answer) :
    discipline.Learns handle thread ends (Program.perform op) :=
  fun state answer reached invariant allowed reply =>
    told state answer reached invariant allowed reply

/-- What is learned from the first part of a sequence may be used in the second. Induction follows
the calls of the first part. -/
theorem Learns.bind {thread : ι} {program : Program Op Res α} {rest : α → Program Op Res β}
    {between : α → Prop} {ends : β → Prop}
    (first : discipline.Learns handle thread between program)
    (second : ∀ result, between result → discipline.Learns handle thread ends (rest result)) :
    discipline.Learns handle thread ends (program >>= rest) := by
  induction program with
  | done result => exact second result first
  | call op next inductionHypothesis =>
    exact fun state answer reached invariant allowed reply =>
      inductionHypothesis answer (first state answer reached invariant allowed reply)

/-- What is learned from either branch is learned from the choice. -/
theorem Learns.ite {thread : ι} {condition : Prop} [Decidable condition]
    {first second : Program Op Res α} {ends : α → Prop}
    (chosen : condition → discipline.Learns handle thread ends first)
    (otherwise : ¬condition → discipline.Learns handle thread ends second) :
    discipline.Learns handle thread ends (if condition then first else second) := by
  by_cases holds : condition
  · rw [if_pos holds]
    exact chosen holds
  · rw [if_neg holds]
    exact otherwise holds

/-- What is learned from a program may be used behind its outline. Induction follows the calls:
each is made in a state in which the invariant holds. -/
theorem Outline.learns {thread : ι} {program : Program Op Res α} {before : σ → Prop}
    {after : α → σ → Prop} {ends : α → Prop}
    (outline : discipline.Outline handle thread program before after)
    (learned : discipline.Learns handle thread ends program) :
    discipline.Outline handle thread program before
      fun result state => after result state ∧ ends result := by
  induction program generalizing before with
  | done result => exact fun state invariant holds => ⟨outline state invariant holds, learned⟩
  | call op next inductionHypothesis =>
    obtain ⟨held, stable, weakened, made⟩ := outline
    refine ⟨held, stable, weakened, ?_⟩
    intro state invariant holds
    obtain ⟨safe, answered⟩ := made state invariant holds
    refine ⟨safe, ?_⟩
    intro answer reached allowed reply
    obtain ⟨kept, relied, following, starts, rest⟩ := answered answer reached allowed reply
    exact ⟨kept, relied, following, starts,
      inductionHypothesis answer rest (learned state answer reached invariant allowed reply)⟩

/-- Calls that do not matter to an assertion of a thread: they are safe, keep the
discipline, and leave the assertion true. -/
structure Ignores (discipline : Discipline Op σ ι) (handle : ι → Program.Handler Op Res σ)
    (thread : ι) (quiet : Op → Prop) (held : σ → Prop) : Prop where
  stable : discipline.Stable thread held
  kept : ∀ {op : Op} {state : σ}, quiet op → discipline.invariant state → held state →
    discipline.checked thread op state ∧
      ∀ {answer : Res op} {reached : σ}, discipline.allowed thread op state →
        handle thread op state = some (answer, reached) →
        discipline.invariant reached ∧
        (∀ other, other ≠ thread → discipline.rely other state reached) ∧ held reached

/-- A program of calls that do not matter keeps the assertion. Induction follows the calls. -/
theorem Ignores.outline {thread : ι} {quiet : Op → Prop} {held : σ → Prop}
    {program : Program Op Res α} (ignores : discipline.Ignores handle thread quiet held)
    (calls : program.Calls quiet) :
    discipline.Outline handle thread program held fun _ => held := by
  induction program with
  | done result => exact fun _ _ holds => holds
  | call op next inductionHypothesis =>
    obtain ⟨here, further⟩ := calls
    refine ⟨held, ignores.stable, fun _ _ holds => holds, ?_⟩
    intro state invariant holds
    obtain ⟨safe, answered⟩ := ignores.kept here invariant holds
    refine ⟨safe, ?_⟩
    intro answer reached allowed reply
    obtain ⟨kept, relied, still⟩ := answered allowed reply
    exact ⟨kept, relied, held, still, inductionHypothesis answer (further answer)⟩

/-- It returns besides what it can return. -/
theorem Ignores.returns {thread : ι} {quiet : Op → Prop} {held : σ → Prop} {ends : α → Prop}
    {program : Program Op Res α} (ignores : discipline.Ignores handle thread quiet held)
    (calls : program.Calls quiet) (returns : program.Returns ends) :
    discipline.Outline handle thread program held fun result state => held state ∧ ends result :=
  (ignores.outline calls).learns (.of_returns returns)

/-- What holds of a thread in a reachable configuration: some assertion that is
true now starts an outline of the rest of its program. -/
def Placed (discipline : Discipline Op σ ι) (handle : ι → Program.Handler Op Res σ)
    (after : ι → α → σ → Prop) (config : Config Op Res α σ ι) (thread : ι) : Prop :=
  ∃ before : σ → Prop, before config.shared ∧
    discipline.Outline handle thread (config.threads thread) before (after thread)

/-- A thread keeps its place while another one makes a step: the assertion at
its next call is stable, and a thread that has returned holds its stable final
assertion. -/
theorem Placed.framed {after : ι → α → σ → Prop} {config next : Config Op Res α σ ι} {thread : ι}
    (placed : Placed discipline handle after config thread)
    (final : ∀ result, discipline.Stable thread (after thread result))
    (same : next.threads thread = config.threads thread)
    (before : discipline.invariant config.shared) (reached : discipline.invariant next.shared)
    (relied : discipline.rely thread config.shared next.shared) :
    Placed discipline handle after next thread := by
  obtain ⟨assertion, holds, outline⟩ := placed
  unfold Placed
  rw [same]
  cases program : config.threads thread with
  | done result =>
    rw [program] at outline
    exact ⟨after thread result,
      final result _ _ before reached relied (outline _ before holds), fun _ _ holds => holds⟩
  | call op rest =>
    rw [program] at outline
    obtain ⟨held, stable, weakened, made⟩ := outline
    exact ⟨held, stable _ _ before reached relied (weakened _ before holds),
      held, stable, fun _ _ holds => holds, made⟩

variable [DecidableEq ι]

/-- Soundness: if every thread starts under an outline and returns with a stable
assertion, then in every reachable configuration the invariant holds and every
thread is placed in its outline.

The induction is on the interleaving. The thread that makes the call moves to
the assertion its answer gives; every other thread is framed by its rely. -/
theorem sound {after : ι → α → σ → Prop} {start config : Config Op Res α σ ι}
    (initial : discipline.invariant start.shared)
    (outlines : ∀ thread, Placed discipline handle after start thread)
    (final : ∀ thread result, discipline.Stable thread (after thread result))
    (reached : Config.Reachable handle discipline.allowed start config) :
    discipline.invariant config.shared ∧
      ∀ thread, Placed discipline handle after config thread := by
  induction reached with
  | start => exact ⟨initial, outlines⟩
  | step reached taken inductionHypothesis =>
    obtain ⟨invariant, placed⟩ := inductionHypothesis
    cases taken with
    | answered mover op next answer state pending admitted reply =>
      obtain ⟨assertion, holds, outline⟩ := placed mover
      rw [pending] at outline
      obtain ⟨held, stable, weakened, made⟩ := outline
      obtain ⟨_, answered⟩ := made _ invariant (weakened _ invariant holds)
      obtain ⟨kept, relied, following, starts, rest⟩ := answered answer state admitted reply
      refine ⟨kept, ?_⟩
      intro thread
      by_cases moved : thread = mover
      · subst moved
        refine ⟨following, starts, ?_⟩
        simpa only [Function.update_self] using rest
      · exact (placed thread).framed (final thread) (Function.update_of_ne moved _ _)
          invariant kept (relied thread moved)

/-- In a reachable configuration every call that a thread is about to make has
been checked. -/
theorem sound_checked {after : ι → α → σ → Prop} {start config : Config Op Res α σ ι}
    (initial : discipline.invariant start.shared)
    (outlines : ∀ thread, Placed discipline handle after start thread)
    (final : ∀ thread result, discipline.Stable thread (after thread result))
    (reached : Config.Reachable handle discipline.allowed start config)
    {thread : ι} {op : Op} {next : Res op → Program Op Res α}
    (pending : config.threads thread = .call op next) :
    discipline.checked thread op config.shared := by
  obtain ⟨invariant, placed⟩ := sound initial outlines final reached
  obtain ⟨assertion, holds, outline⟩ := placed thread
  rw [pending] at outline
  obtain ⟨held, stable, weakened, made⟩ := outline
  exact (made _ invariant (weakened _ invariant holds)).1

/-- In a reachable configuration every thread that has returned holds its final
assertion. -/
theorem sound_returned {after : ι → α → σ → Prop} {start config : Config Op Res α σ ι}
    (initial : discipline.invariant start.shared)
    (outlines : ∀ thread, Placed discipline handle after start thread)
    (final : ∀ thread result, discipline.Stable thread (after thread result))
    (reached : Config.Reachable handle discipline.allowed start config)
    {thread : ι} {result : α} (returned : config.threads thread = .done result) :
    after thread result config.shared := by
  obtain ⟨invariant, placed⟩ := sound initial outlines final reached
  obtain ⟨assertion, holds, outline⟩ := placed thread
  rw [returned] at outline
  exact outline _ invariant holds

end Discipline

end Nvmkv
