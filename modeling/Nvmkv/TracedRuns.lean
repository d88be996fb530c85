/-!
# Runs and what is seen of them

A system takes steps. Of a step something is seen from outside, or nothing. The trace of a
run is the list of what was seen, in order.

A machine that makes events one after the other is the specification of such a system when
it can make every trace of the system. That is shown step by step: a relation between the
states of both is kept when the machine makes the event of the step, if there is one.
-/

namespace Nvmkv

variable {State Event Spec : Type}

/-- The states that a system reaches from a first one, with the events seen on the way. -/
inductive TracedRun (step : State → Option Event → State → Prop) (first : State) :
    List Event → State → Prop where
  | start : TracedRun step first [] first
  | further {trace : List Event} {state after : State} {event : Option Event}
      (before : TracedRun step first trace state) (taken : step state event after) :
      TracedRun step first (trace ++ event.toList) after

/-- The states that a machine reaches by making the events of a list. -/
inductive Makes (machine : Spec → Event → Spec → Prop) (first : Spec) :
    List Event → Spec → Prop where
  | start : Makes machine first [] first
  | further {events : List Event} {state after : Spec} {event : Event}
      (before : Makes machine first events state) (made : machine state event after) :
      Makes machine first (events ++ [event]) after

/-- Every step of the system is a step of the machine, or none when nothing is seen, between
states that are related again. -/
def Simulates (step : State → Option Event → State → Prop) (machine : Spec → Event → Spec → Prop)
    (related : State → Spec → Prop) : Prop :=
  ∀ state spec event after, related state spec → step state event after →
    ∃ next, Makes machine spec event.toList next ∧ related after next

section Machines

variable {machine : Spec → Event → Spec → Prop} {first state after : Spec} {events : List Event}

/-- Lists of events are made one after the other. Induction follows the second list. -/
theorem Makes.append {more : List Event} (before : Makes machine first events state)
    (later : Makes machine state more after) : Makes machine first (events ++ more) after := by
  induction later with
  | start =>
    rw [List.append_nil]
    exact before
  | further _ made inductionHypothesis =>
    rw [← List.append_assoc]
    exact inductionHypothesis.further made

/-- One step makes a list of one event. -/
theorem Makes.single {event : Event} (made : machine first event after) :
    Makes machine first [event] after :=
  Makes.further Makes.start made

/-- A machine that has made a list of events has made every part in front. Induction follows
the part behind, from its end. -/
theorem Makes.split {more : List Event} (made : Makes machine first (events ++ more) after) :
    ∃ between, Makes machine first events between ∧ Makes machine between more after := by
  generalize whole : events ++ more = all at made
  induction made generalizing more with
  | start =>
    obtain ⟨rfl, rfl⟩ := List.append_eq_nil_iff.mp whole
    exact ⟨first, Makes.start, Makes.start⟩
  | @further front reached last event before taken inductionHypothesis =>
    rcases List.eq_nil_or_concat more with rfl | ⟨initial, ending, rfl⟩
    · rw [List.append_nil] at whole
      subst whole
      exact ⟨last, before.further taken, Makes.start⟩
    · rw [List.concat_eq_append, ← List.append_assoc] at whole
      obtain ⟨same, here⟩ := List.append_inj' whole rfl
      cases here
      obtain ⟨between, front, back⟩ := inductionHypothesis same
      refine ⟨between, front, ?_⟩
      rw [List.concat_eq_append]
      exact back.further taken

/-- The event behind a list is made in the state that the list leads to. -/
theorem Makes.last {event : Event} (made : Makes machine first (events ++ [event]) after) :
    ∃ between, Makes machine first events between ∧ machine between event after := by
  generalize whole : events ++ [event] = all at made
  cases made with
  | start => exact absurd whole (List.append_ne_nil_of_right_ne_nil _ (List.cons_ne_nil _ _))
  | further before taken =>
    obtain ⟨rfl, same⟩ := List.append_inj' whole rfl
    cases same
    exact ⟨_, before, taken⟩

/-- No event leads nowhere else. -/
theorem Makes.of_nil (made : Makes machine first [] after) : after = first := by
  generalize whole : ([] : List Event) = all at made
  cases made with
  | start => rfl
  | further _ _ => exact absurd whole.symm (List.append_ne_nil_of_right_ne_nil _ (by simp))

/-- One event is one step. -/
theorem Makes.of_single {event : Event} (made : Makes machine first [event] after) :
    machine first event after := by
  obtain ⟨between, nothing, taken⟩ := @Makes.last Event Spec machine first after [] event made
  rw [nothing.of_nil] at taken
  exact taken

end Machines

section Systems

variable {step : State → Option Event → State → Prop} {machine : Spec → Event → Spec → Prop}
  {related : State → Spec → Prop} {first state : State} {trace : List Event}

/-- The machine makes the trace of every run. Induction follows the steps. -/
theorem Simulates.run (simulates : Simulates step machine related) {spec : Spec}
    (initial : related first spec) (run : TracedRun step first trace state) :
    ∃ next, Makes machine spec trace next ∧ related state next := by
  induction run with
  | start => exact ⟨spec, Makes.start, initial⟩
  | further _ taken inductionHypothesis =>
    obtain ⟨between, made, relates⟩ := inductionHypothesis
    obtain ⟨next, makes, again⟩ := simulates _ between _ _ relates taken
    exact ⟨next, made.append makes, again⟩

end Systems

end Nvmkv
