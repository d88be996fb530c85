import Mathlib.Init

/-!
# Programs that call on a shared machine

A program either has returned or makes one call on the machine around it and
continues with the answer. Every call is one atomic step of that machine, so
the same program text is run here to its end by one caller and is interleaved
with other programs in `Interleaving`.

A machine is a handler: it answers a call and changes its state, or it cannot
answer in the present state. An unanswered call is a blocked caller and not an
error. Loops are programs by structural recursion, hence every program makes
finitely many calls on every path.
-/

namespace Nvmkv

/-- A computation over the calls `Op`, where the machine answers the call `op`
with a value of type `Res op`. -/
inductive Program (Op : Type) (Res : Op → Type) (α : Type) : Type where
  | done (result : α)
  | call (op : Op) (next : Res op → Program Op Res α)

namespace Program

variable {Op : Type} {Res : Op → Type} {α β : Type} {σ : Type}

/-- Continue every returned result with the given program. -/
def bind : Program Op Res α → (α → Program Op Res β) → Program Op Res β
  | .done result, rest => rest result
  | .call op next, rest => .call op (fun answer => (next answer).bind rest)

/-- Programs in a row are a monad. -/
instance : Monad (Program Op Res) where
  pure := .done
  bind := bind

/-- One call, returning the machine's answer. -/
def perform (op : Op) : Program Op Res (Res op) := .call op .done

/-- What a program returns is a program that has ended. -/
theorem pure_eq (result : α) : (pure result : Program Op Res α) = .done result := rfl

/-- A program that has ended hands its result on. -/
@[simp] theorem done_bind (result : α) (rest : α → Program Op Res β) :
    (Program.done result : Program Op Res α) >>= rest = rest result := rfl

/-- A program that asks is continued behind the answer. -/
@[simp] theorem call_bind (op : Op) (next : Res op → Program Op Res α)
    (rest : α → Program Op Res β) :
    Program.call op next >>= rest = .call op (fun answer => next answer >>= rest) := rfl

/-- A machine with states `σ`: the answer to a call and the state after it, or
nothing while the caller has to wait. -/
abbrev Handler (Op : Type) (Res : Op → Type) (σ : Type) :=
  (op : Op) → σ → Option (Res op × σ)

/-- Run a program alone to its end. Nothing is returned when one of its calls
is never answered. -/
def run (handle : Handler Op Res σ) : Program Op Res α → σ → Option (α × σ)
  | .done result, state => some (result, state)
  | .call op next, state =>
      (handle op state).bind fun answered => (next answered.1).run handle answered.2

/-- A program that has ended runs to its result. -/
@[simp] theorem run_done (handle : Handler Op Res σ) (result : α) (state : σ) :
    run handle (.done result) state = some (result, state) := rfl

/-- The same of what is returned. -/
@[simp] theorem run_pure (handle : Handler Op Res σ) (result : α) (state : σ) :
    run handle (pure result) state = some (result, state) := rfl

/-- A call runs on from its answer, if the machine answers. -/
theorem run_call (handle : Handler Op Res σ) (op : Op) (next : Res op → Program Op Res α)
    (state : σ) :
    run handle (.call op next) state =
      (handle op state).bind fun answered => run handle (next answered.1) answered.2 := rfl

/-- A sequence runs its first part and then, from the state reached, the rest.
Induction follows the calls of the first part. -/
@[simp] theorem run_bind (handle : Handler Op Res σ) (program : Program Op Res α)
    (rest : α → Program Op Res β) (state : σ) :
    run handle (program >>= rest) state =
      (run handle program state).bind fun reached => run handle (rest reached.1) reached.2 := by
  induction program generalizing state with
  | done result => rfl
  | call op next inductionHypothesis =>
    rw [call_bind, run_call, run_call]
    cases handle op state with
    | none => rfl
    | some answered => exact inductionHypothesis answered.1 answered.2

/-- One call is the machine's answer. -/
@[simp] theorem run_perform (handle : Handler Op Res σ) (op : Op) (state : σ) :
    run handle (perform op) state = handle op state := by
  rw [perform, run_call]
  cases handle op state <;> rfl

/-- The calls of a run in their order. The last one is not answered when the run does
not come to its end. -/
def asked (handle : Handler Op Res σ) : Program Op Res α → σ → List Op
  | .done _, _ => []
  | .call op next, state =>
      op :: ((handle op state).map fun answered =>
        (next answered.1).asked handle answered.2).getD []

/-- A sequence makes the calls of its first part and then those of the rest. Induction
follows the calls of the first part. -/
theorem mem_asked_bind {handle : Handler Op Res σ} {program : Program Op Res α}
    {rest : α → Program Op Res β} {state : σ} {op : Op} :
    op ∈ (program >>= rest).asked handle state ↔ op ∈ program.asked handle state ∨
      ∃ result reached, run handle program state = some (result, reached) ∧
        op ∈ (rest result).asked handle reached := by
  induction program generalizing state with
  | done result =>
    constructor
    · exact fun member => Or.inr ⟨result, state, rfl, member⟩
    · rintro (none | ⟨_, _, ran, member⟩)
      · cases none
      · cases ran
        exact member
  | call first next inductionHypothesis =>
    rw [call_bind, asked, asked, run_call]
    cases handle first state with
    | none => simp
    | some answered =>
      simp only [Option.map_some, Option.getD_some, Option.bind_some, List.mem_cons, or_assoc,
        inductionHypothesis]

/-- Every call of a run is made in a state where it is allowed. -/
def Throughout (handle : Handler Op Res σ) (allowed : Op → σ → Prop) :
    Program Op Res α → σ → Prop
  | .done _, _ => True
  | .call op next, state => allowed op state ∧ ∀ answered reached,
      handle op state = some (answered, reached) →
        (next answered).Throughout handle allowed reached

/-- A call that is answered is allowed together with the calls that follow on its answer. -/
theorem throughout_call_iff {handle : Handler Op Res σ} {allowed : Op → σ → Prop} {op : Op}
    {next : Res op → Program Op Res α} {state reached : σ} {answered : Res op}
    (reply : handle op state = some (answered, reached)) :
    (call op next).Throughout handle allowed state ↔
      allowed op state ∧ (next answered).Throughout handle allowed reached := by
  rw [Throughout]
  constructor
  · rintro ⟨here, further⟩
    exact ⟨here, further answered reached reply⟩
  · rintro ⟨here, further⟩
    refine ⟨here, ?_⟩
    intro other after given
    obtain ⟨rfl, rfl⟩ := Prod.mk.inj (Option.some.inj (reply.symm.trans given))
    exact further

namespace Throughout

variable {handle : Handler Op Res σ} {allowed : Op → σ → Prop}

/-- A single call is admitted in the state in which it is made. -/
theorem perform {op : Op} {state : σ} (admitted : allowed op state) :
    (Program.perform op : Program Op Res (Res op)).Throughout handle allowed state :=
  ⟨admitted, fun _ _ _ => trivial⟩

/-- The rest of a sequence starts where its first part ends. Induction follows the calls of the
first part. -/
theorem bind {program : Program Op Res α} {rest : α → Program Op Res β} {state : σ}
    (first : program.Throughout handle allowed state)
    (second : ∀ result reached, program.run handle state = some (result, reached) →
      (rest result).Throughout handle allowed reached) :
    (program >>= rest).Throughout handle allowed state := by
  induction program generalizing state with
  | done result => exact second result state rfl
  | call op next inductionHypothesis =>
    obtain ⟨admitted, further⟩ := first
    refine ⟨admitted, ?_⟩
    intro answered reached reply
    refine inductionHypothesis answered (further answered reached reply) ?_
    intro result after ran
    exact second result after (by rw [run_call, reply, Option.bind_some, ran])

end Throughout

/-- Partial correctness of a run alone: started where `before` holds, a run that
comes to its end returns with `after`. -/
def Triple (handle : Handler Op Res σ) (before : σ → Prop) (program : Program Op Res α)
    (after : α → σ → Prop) : Prop :=
  ∀ state, before state → ∀ result reached,
    run handle program state = some (result, reached) → after result reached

namespace Triple

variable {handle : Handler Op Res σ} {before : σ → Prop} {program : Program Op Res α}

/-- A program that has ended meets what holds already. -/
theorem done {result : α} {after : α → σ → Prop}
    (holds : ∀ state, before state → after result state) :
    Triple handle before (pure result) after := by
  intro state starts other reached ran
  cases ran
  exact holds state starts

/-- The rule for programs in a row: what the first one ensures is what the second one starts from.
-/
theorem bind {rest : α → Program Op Res β} {between : α → σ → Prop} {after : β → σ → Prop}
    (first : Triple handle before program between)
    (second : ∀ result, Triple handle (between result) (rest result) after) :
    Triple handle before (program >>= rest) after := by
  intro state starts result reached ran
  rw [run_bind] at ran
  obtain ⟨⟨middle, between⟩, ranFirst, ranSecond⟩ := Option.bind_eq_some_iff.mp ran
  exact second middle between (first state starts middle between ranFirst) result reached ranSecond

/-- The rule for one call: whatever the machine answers has to be ensured. -/
theorem perform {op : Op} {after : Res op → σ → Prop}
    (answered : ∀ state, before state → ∀ answer reached,
      handle op state = some (answer, reached) → after answer reached) :
    Triple handle before (perform op) after := by
  intro state starts answer reached ran
  rw [run_perform] at ran
  exact answered state starts answer reached ran

/-- A triple may start from more than it needs. -/
theorem strengthen {stronger : σ → Prop} {after : α → σ → Prop}
    (triple : Triple handle before program after)
    (implies : ∀ state, stronger state → before state) : Triple handle stronger program after :=
  fun state starts => triple state (implies state starts)

end Triple

/-- Every call of the program, on every path, is one of those allowed. -/
def Calls (allowed : Op → Prop) : Program Op Res α → Prop
  | .done _ => True
  | .call op next => allowed op ∧ ∀ answer, Calls allowed (next answer)

namespace Calls

variable {allowed : Op → Prop}

/-- One call that is allowed. -/
theorem perform {op : Op} (among : allowed op) :
    (Program.perform op : Program Op Res (Res op)).Calls allowed :=
  ⟨among, fun _ => trivial⟩

/-- The calls of programs in a row are those of both. -/
theorem bind {program : Program Op Res α} {rest : α → Program Op Res β}
    (first : program.Calls allowed) (second : ∀ result, (rest result).Calls allowed) :
    (program >>= rest).Calls allowed := by
  induction program with
  | done result => exact second result
  | call op next inductionHypothesis =>
    obtain ⟨among, further⟩ := first
    exact ⟨among, fun answer => inductionHypothesis answer (further answer)⟩

/-- The calls of the first part of a sequence are calls of the sequence. -/
theorem of_bind {program : Program Op Res α} {rest : α → Program Op Res β}
    (calls : (program >>= rest).Calls allowed) : program.Calls allowed := by
  induction program with
  | done result => trivial
  | call op next inductionHypothesis =>
    obtain ⟨among, further⟩ := calls
    exact ⟨among, fun answer => inductionHypothesis answer (further answer)⟩

/-- When the second program keeps to the calls allowed anyway, the first one decides. -/
theorem bind_iff {program : Program Op Res α} {rest : α → Program Op Res β}
    (second : ∀ result, (rest result).Calls allowed) :
    (program >>= rest).Calls allowed ↔ program.Calls allowed :=
  ⟨of_bind, fun first => first.bind second⟩

/-- Where every call is allowed, a program makes allowed calls only. -/
theorem any {program : Program Op Res α} (all : ∀ op, allowed op) : program.Calls allowed := by
  induction program with
  | done result => trivial
  | call op next inductionHypothesis => exact ⟨all op, inductionHypothesis⟩

/-- Both branches of a choice keep to what is allowed. -/
theorem ite {condition : Prop} [Decidable condition] {first second : Program Op Res α}
    (chosen : first.Calls allowed) (otherwise : second.Calls allowed) :
    (if condition then first else second).Calls allowed := by
  split
  · exact chosen
  · exact otherwise

/-- Calls that are allowed may be allowed among more. Induction follows the program. -/
theorem mono {more : Op → Prop} {program : Program Op Res α} (calls : program.Calls allowed)
    (among : ∀ op, allowed op → more op) : program.Calls more := by
  induction program with
  | done result => trivial
  | call op next inductionHypothesis =>
    exact ⟨among op calls.1, fun answer => inductionHypothesis answer (calls.2 answer)⟩

/-- Calls that are allowed in every state are allowed throughout. -/
theorem throughout {program : Program Op Res α} (calls : program.Calls allowed)
    {handle : Handler Op Res σ} {admitted : Op → σ → Prop}
    (always : ∀ op state, allowed op → admitted op state) (state : σ) :
    program.Throughout handle admitted state := by
  induction program generalizing state with
  | done result => trivial
  | call op next inductionHypothesis =>
    obtain ⟨among, further⟩ := calls
    exact ⟨always op state among, fun answer reached _ =>
      inductionHypothesis answer (further answer) reached⟩

/-- The calls of a run are among those of the program. -/
theorem of_asked {program : Program Op Res α} (calls : program.Calls allowed)
    {handle : Handler Op Res σ} {state : σ} {op : Op} (member : op ∈ program.asked handle state) :
    allowed op := by
  induction program generalizing state with
  | done result => exact absurd member List.not_mem_nil
  | call first next inductionHypothesis =>
    rw [asked, List.mem_cons] at member
    rcases member with rfl | later
    · exact calls.1
    · cases reply : handle first state with
      | none =>
        rw [reply] at later
        exact absurd later List.not_mem_nil
      | some answered =>
        rw [reply] at later
        exact inductionHypothesis answered.1 (calls.2 answered.1) later

end Calls

/-- Every result that the program can return has a property. -/
def Returns (ends : α → Prop) : Program Op Res α → Prop
  | .done result => ends result
  | .call _ next => ∀ answer, Returns ends (next answer)

/-- Every result is some result. -/
theorem Returns.any {program : Program Op Res α} : program.Returns fun _ => True := by
  induction program with
  | done result => trivial
  | call op next inductionHypothesis => exact inductionHypothesis

/-- What programs in a row return is what the second one returns. -/
theorem Returns.bind {ends : β → Prop} {program : Program Op Res α}
    {rest : α → Program Op Res β} (further : ∀ result, (rest result).Returns ends) :
    (program >>= rest).Returns ends := by
  induction program with
  | done result => exact further result
  | call op next inductionHypothesis => exact fun answer => inductionHypothesis answer

/-- A claim about the results may be weakened. Induction follows the program. -/
theorem Returns.mono {ends weaker : α → Prop} {program : Program Op Res α}
    (returns : program.Returns ends) (implies : ∀ result, ends result → weaker result) :
    program.Returns weaker := by
  induction program with
  | done result => exact implies result returns
  | call op next inductionHypothesis =>
    exact fun answer => inductionHypothesis answer (returns answer)

/-- The result of a run is one of those that the program can return. -/
theorem Returns.of_run {ends : α → Prop} {program : Program Op Res α} {handle : Handler Op Res σ}
    {state reached : σ} {result : α} (returns : program.Returns ends)
    (ran : program.run handle state = some (result, reached)) : ends result := by
  induction program generalizing state with
  | done result =>
    cases ran
    exact returns
  | call op next inductionHypothesis =>
    rw [run_call] at ran
    obtain ⟨answered, _, further⟩ := Option.bind_eq_some_iff.mp ran
    exact inductionHypothesis answered.1 (returns answered.1) further

/-- What the first part of a sequence returns may be used for the rest. -/
theorem Returns.seq {between : α → Prop} {ends : β → Prop} {program : Program Op Res α}
    {rest : α → Program Op Res β} (first : program.Returns between)
    (second : ∀ result, between result → (rest result).Returns ends) :
    (program >>= rest).Returns ends := by
  induction program with
  | done result => exact second result first
  | call op next inductionHypothesis =>
    exact fun answer => inductionHypothesis answer (first answer)

/-- Every call of the program is one of those allowed, and every result has a property. -/
def Yields (allowed : Op → Prop) (ends : α → Prop) : Program Op Res α → Prop
  | .done result => ends result
  | .call op next => allowed op ∧ ∀ answer, Yields allowed ends (next answer)

namespace Yields

variable {allowed : Op → Prop}

/-- What the first part of a sequence returns may be used to show what the rest calls.
Induction follows the calls of the first part. -/
theorem bind {between : α → Prop} {ends : β → Prop} {program : Program Op Res α}
    {rest : α → Program Op Res β} (first : program.Yields allowed between)
    (second : ∀ result, between result → (rest result).Yields allowed ends) :
    (program >>= rest).Yields allowed ends := by
  induction program with
  | done result => exact second result first
  | call op next inductionHypothesis =>
    obtain ⟨among, further⟩ := first
    exact ⟨among, fun answer => inductionHypothesis answer (further answer)⟩

/-- A program yields what it is allowed to call and what it returns. -/
theorem of_calls {ends : α → Prop} {program : Program Op Res α} (calls : program.Calls allowed)
    (returns : program.Returns ends) : program.Yields allowed ends := by
  induction program with
  | done result => exact returns
  | call op next inductionHypothesis =>
    exact ⟨calls.1, fun answer => inductionHypothesis answer (calls.2 answer) (returns answer)⟩

/-- Its calls are among those allowed. -/
theorem calls {ends : α → Prop} {program : Program Op Res α}
    (yields : program.Yields allowed ends) :
    program.Calls allowed := by
  induction program with
  | done result => trivial
  | call op next inductionHypothesis =>
    exact ⟨yields.1, fun answer => inductionHypothesis answer (yields.2 answer)⟩

/-- Its results are as claimed. -/
theorem returns {ends : α → Prop} {program : Program Op Res α}
    (yields : program.Yields allowed ends) : program.Returns ends := by
  induction program with
  | done result => exact yields
  | call op next inductionHypothesis =>
    exact fun answer => inductionHypothesis answer (yields.2 answer)

/-- The rest of a sequence calls what it may after what the first part returns. -/
theorem bind_calls {between : α → Prop} {program : Program Op Res α}
    {rest : α → Program Op Res β} (first : program.Yields allowed between)
    (second : ∀ result, between result → (rest result).Calls allowed) :
    (program >>= rest).Calls allowed := by
  induction program with
  | done result => exact second result first
  | call op next inductionHypothesis =>
    obtain ⟨among, further⟩ := first
    exact ⟨among, fun answer => inductionHypothesis answer (further answer)⟩

/-- A sequence of calls whose first part may return anything. -/
theorem after {ends : β → Prop} {program : Program Op Res α} {rest : α → Program Op Res β}
    (first : program.Calls allowed) (second : ∀ result, (rest result).Yields allowed ends) :
    (program >>= rest).Yields allowed ends :=
  bind (of_calls first Returns.any) fun result (_ : True) => second result

end Yields

end Program

end Nvmkv
