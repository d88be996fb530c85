import Nvmkv.Interleaving
import Nvmkv.Monitors

/-!
# Programs behind mutexes

A machine whose calls wait until they can be answered says what a system does, and code with
mutexes and condition variables says how. The two are connected by what a thread at a place
of the code has still to do on the machine: taking or releasing a mutex, waiting and waking
change nothing of it, and a call of the code either looks at the world only or makes the next
call of the program.

Then everything that threads with mutexes reach is reached by an interleaving of their
programs. The converse of a kind holds as well when the code keeps its plan: where a thread
is asleep, and where its call is not answered, the program waits at its next call too. When
the threads come to a standstill, then so do the programs, and the mutexes have stopped
nobody.
-/

namespace Nvmkv

variable {κ ι ℓ σ Op Op' α : Type} {Res : Op → Type} {Res' : Op' → Type}

/-- Where an instruction goes on that is no call. -/
def Instruction.passesTo : Instruction κ Op Res ℓ → Option ℓ
  | .lock _ next | .unlock _ next | .wait _ next | .broadcast _ next | .signal _ next => some next
  | .call _ _ | .ended => none

/-- A program is at a call that its machine does not answer. -/
def Program.Waits (handle : Program.Handler Op' Res' σ) (program : Program Op' Res' α)
    (world : σ) : Prop :=
  ∃ op next, program = .call op next ∧ handle op world = none

/-- A program goes on to another by one answered call, or is the same and the world is. -/
def Program.Follows (handle : Program.Handler Op' Res' σ) (program next : Program Op' Res' α)
    (before after : σ) : Prop :=
  (next = program ∧ after = before) ∨ ∃ op further answer,
    program = .call op further ∧ handle op before = some (answer, after) ∧ next = further answer

/-- Code with mutexes does what programs do. -/
structure Implements (plan : MonitorPlan κ ι ℓ σ) (code : ι → ℓ → Instruction κ Op Res ℓ)
    (handle : ι → Program.Handler Op Res σ) (machine : ι → Program.Handler Op' Res' σ)
    (rest : ℓ → Program Op' Res' α) : Prop where
  passes : ∀ thread place next, (code thread place).passesTo = some next → rest next = rest place
  calls : ∀ thread place op next before answer after, code thread place = .call op next →
    plan.invariant before → plan.knows thread place before →
      handle thread op before = some (answer, after) →
        (rest place).Follows (machine thread) (rest (next answer)) before after
  asleep : ∀ thread place mutex world, mutex ∈ plan.sleeps place → plan.invariant world →
    ¬plan.wanted place world → (rest place).Waits (machine thread) world
  unanswered : ∀ thread place op next world, code thread place = .call op next →
    plan.invariant world → plan.knows thread place world → handle thread op world = none →
      plan.holds place = ∅ ∧ (rest place).Waits (machine thread) world
  ended : ∀ thread place, code thread place = .ended → ∃ result, rest place = .done result

namespace Monitored

/-- The programs of the threads over the world. -/
def programs (rest : ℓ → Program Op' Res' α) (state : Monitored κ ι ℓ σ) :
    Config Op' Res' α σ ι :=
  ⟨state.world, fun thread => rest (state.place thread)⟩

variable [DecidableEq κ] [DecidableEq ι] {rest : ℓ → Program Op' Res' α}
  {state next : Monitored κ ι ℓ σ}

omit [DecidableEq κ] in
/-- A thread that goes to a place of the same program goes nowhere. -/
theorem goes_programs {thread : ι} {place : ℓ} (same : rest place = rest (state.place thread)) :
    (state.goes thread place).programs rest = state.programs rest := by
  have places : (fun other => rest ((state.goes thread place).place other)) =
      fun other => rest (state.place other) := by
    funext other
    by_cases mover : other = thread
    · rw [mover, goes_self]
      exact same
    · rw [goes_of_ne _ _ _ mover]
  rw [programs, programs, places, goes_world]

omit [DecidableEq κ] in
/-- The programs after an answered call. -/
theorem answered_programs {thread : ι} {place : ℓ} {after : σ} :
    ({ state with world := after }.goes thread place).programs rest =
      ⟨after, Function.update (state.programs rest).threads thread (rest place)⟩ := by
  have places : (fun other => rest (({ state with world := after }.goes thread place).place
      other)) = Function.update (state.programs rest).threads thread (rest place) := by
    funext other
    by_cases mover : other = thread
    · rw [mover, goes_self, Function.update_self]
    · rw [goes_of_ne _ _ _ mover, Function.update_of_ne mover, programs]
  rw [programs, places, goes_world]

end Monitored

namespace Implements

variable [DecidableEq κ] [DecidableEq ι] {plan : MonitorPlan κ ι ℓ σ}
  {code : ι → ℓ → Instruction κ Op Res ℓ} {handle : ι → Program.Handler Op Res σ}
  {machine : ι → Program.Handler Op' Res' σ} {rest : ℓ → Program Op' Res' α}
  {state next : Monitored κ ι ℓ σ}

/-- One step is a step of a program, or none. -/
theorem step (implements : Implements plan code handle machine rest) (sound : plan.Sound state)
    (taken : Monitored.Step code handle state next) :
    next.programs rest = state.programs rest ∨
      Config.Step machine (fun _ _ _ => True) (state.programs rest) (next.programs rest) := by
  cases taken with
  | roused thread => exact Or.inl rfl
  | @moved thread _ moves =>
    have passes : ∀ place, (code thread (state.place thread)).passesTo = some place →
        ∀ among : Monitored κ ι ℓ σ, among.world = state.world → among.place = state.place →
          (among.goes thread place).programs rest = state.programs rest := by
      intro place instruction among world places
      have same := implements.passes thread (state.place thread) place instruction
      rw [Monitored.goes_programs (by rw [places]; exact same), Monitored.programs,
        Monitored.programs, world, places]
    cases moves with
    | locked awake here free => exact Or.inl (passes _ (by rw [here]; rfl) _ rfl rfl)
    | unlocked awake here => exact Or.inl (passes _ (by rw [here]; rfl) _ rfl rfl)
    | waited awake here => exact Or.inl (passes _ (by rw [here]; rfl) _ rfl rfl)
    | broadcasted awake here => exact Or.inl (passes _ (by rw [here]; rfl) _ rfl rfl)
    | signalled awake here asleep => exact Or.inl (passes _ (by rw [here]; rfl) _ rfl rfl)
    | unheard awake here nobody => exact Or.inl (passes _ (by rw [here]; rfl) _ rfl rfl)
    | @answered op following answer after awake here reply =>
      rcases implements.calls thread _ op following _ answer after here sound.invariant
        (sound.knows thread) reply with ⟨same, rfl⟩ | ⟨op', further, answer', pending, made, goes⟩
      · exact Or.inl (Monitored.goes_programs same)
      · rw [Monitored.answered_programs, goes]
        exact Or.inr (.answered _ thread op' further answer' after pending trivial made)

/-- What threads with mutexes reach is reached by their programs. -/
theorem reachable (implements : Implements plan code handle machine rest)
    (obeys : ∀ thread place, plan.Obeys handle thread place (code thread place))
    (sound : plan.Sound state) (reached : Monitored.Reachable code handle state next) :
    Config.Reachable machine (fun _ _ _ => True) (state.programs rest) (next.programs rest) := by
  induction reached with
  | refl => exact .start
  | tail reached taken inductionHypothesis =>
    rcases implements.step (sound.reachable obeys reached) taken with same | further
    · rw [same]
      exact inductionHypothesis
    · exact .step inductionHypothesis further

/-- When no thread can move, each program waits at its next call or has ended. -/
theorem still [Finite κ] (implements : Implements plan code handle machine rest)
    (obeys : ∀ thread place, plan.Obeys handle thread place (code thread place))
    (sound : plan.Sound state) (still : Monitored.Still code handle state) (thread : ι) :
    (rest (state.place thread)).Waits (machine thread) state.world ∨
      ∃ result, rest (state.place thread) = .done result := by
  have outside : ∀ thread, Monitored.Unanswered code handle state thread →
      plan.holds (state.place thread) = ∅ ∧
        (rest (state.place thread)).Waits (machine thread) state.world := by
    rintro thread ⟨op, next, here, silent⟩
    exact implements.unanswered thread _ op next _ here sound.invariant (sound.knows thread) silent
  rcases sound.still obeys still (fun thread stops => (outside thread stops).1) thread with
    ⟨mutex, sleeps, unwanted⟩ | ⟨awake, stops | here⟩
  · have rests := (sound.sleeping thread mutex sleeps).1
    exact Or.inl (implements.asleep thread _ mutex _ rests sound.invariant unwanted)
  · exact Or.inl (outside thread stops).2
  · exact Or.inr (implements.ended thread _ here)

/-- Then no program can move: mutexes and condition variables stop nobody for whom there is an
answer. -/
theorem still_programs [Finite κ] (implements : Implements plan code handle machine rest)
    (obeys : ∀ thread place, plan.Obeys handle thread place (code thread place))
    (sound : plan.Sound state) (still : Monitored.Still code handle state)
    (config : Config Op' Res' α σ ι) :
    ¬Config.Step machine (fun _ _ _ => True) (state.programs rest) config := by
  rintro ⟨thread, op, next, answer, after, pending, _, reply⟩
  rcases implements.still obeys sound still thread with ⟨_, _, waiting, silent⟩ | ⟨_, ended⟩
  · cases pending.symm.trans waiting
    cases reply.symm.trans silent
  · cases pending.symm.trans ended

end Implements

end Nvmkv
