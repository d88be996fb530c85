import Nvmkv.Interleaving

/-!
# Programs of a larger machine

A machine that answers the calls of a smaller one among its own runs the programs
of the smaller one as they are: each call is made as a call of the larger machine
and the answer is taken back. What the larger machine does at these calls makes a
smaller machine over the same states, and outlines over that one are outlines over
the larger machine.
-/

namespace Nvmkv

variable {Small Large : Type} {SmallRes : Small → Type} {LargeRes : Large → Type}
  {α β : Type} {σ ι : Type}

namespace Program

/-- The program with every call made on the larger machine. -/
def lift (inject : Small → Large) (back : ∀ op, LargeRes (inject op) → SmallRes op) :
    Program Small SmallRes α → Program Large LargeRes α
  | .done result => .done result
  | .call op next => .call (inject op) fun answer => (next (back op answer)).lift inject back

/-- What the larger machine does at the calls of the smaller one. -/
def Handler.restrict (inject : Small → Large) (back : ∀ op, LargeRes (inject op) → SmallRes op)
    (handle : Handler Large LargeRes σ) : Handler Small SmallRes σ := fun op state =>
  (handle (inject op) state).map fun answered => (back op answered.1, answered.2)

variable {inject : Small → Large} {back : ∀ op, LargeRes (inject op) → SmallRes op}

/-- Programs in a row are lifted one by one. Induction follows the first one. -/
@[simp] theorem lift_bind (program : Program Small SmallRes α)
    (rest : α → Program Small SmallRes β) :
    (program >>= rest).lift inject back =
      program.lift inject back >>= fun result => (rest result).lift inject back := by
  induction program with
  | done result => rfl
  | call op next inductionHypothesis =>
    rw [call_bind, lift, lift, call_bind]
    congr 1
    funext answer
    exact inductionHypothesis (back op answer)

end Program

namespace Discipline

/-- What threads owe each other at the calls of the smaller machine. -/
def restrict (discipline : Discipline Large σ ι) (inject : Small → Large) :
    Discipline Small σ ι where
  invariant := discipline.invariant
  rely := discipline.rely
  allowed := fun thread op => discipline.allowed thread (inject op)
  checked := fun thread op => discipline.checked thread (inject op)

variable {inject : Small → Large} {back : ∀ op, LargeRes (inject op) → SmallRes op}
  {discipline : Discipline Large σ ι} {handle : ι → Program.Handler Large LargeRes σ}

/-- An outline over the smaller machine is one over the larger machine. -/
theorem Outline.lift {thread : ι} {program : Program Small SmallRes α} {before : σ → Prop}
    {after : α → σ → Prop}
    (outline : (discipline.restrict inject).Outline
      (fun thread => (handle thread).restrict inject back) thread program before after) :
    discipline.Outline handle thread (program.lift inject back) before after := by
  induction program generalizing before with
  | done result => exact outline
  | call op next inductionHypothesis =>
    obtain ⟨held, stable, weakened, made⟩ := outline
    refine ⟨held, stable, weakened, ?_⟩
    intro state invariant holds
    obtain ⟨safe, answered⟩ := made state invariant holds
    refine ⟨safe, ?_⟩
    intro answer reached allowed reply
    have restricted : (handle thread).restrict inject back op state =
        some (back op answer, reached) := by
      rw [Program.Handler.restrict, reply]
      rfl
    obtain ⟨kept, relied, following, starts, further⟩ :=
      answered (back op answer) reached allowed restricted
    exact ⟨kept, relied, following, starts, inductionHypothesis _ further⟩

end Discipline

end Nvmkv
