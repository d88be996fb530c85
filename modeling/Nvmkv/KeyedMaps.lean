import Mathlib.Data.List.Induction
import Mathlib.Data.List.Nodup
import Mathlib.Data.List.Perm.Basic
import Mathlib.Logic.Function.Basic
import Nvmkv.TracedRuns

/-!
# Maps that are written and asked

A map from keys to values is what a key-value store is for. It makes four events: a value is
stored under a key, a key that is there refuses one, a key is removed, and a key is asked
for. The answer to a question need not be the whole value; it is a function of the question
and of the value, and there is none when the key is not there.

The answer to every question is given by the events before it: it is about the value that
was stored last under the key, unless the key was removed behind it.
-/

namespace Nvmkv

/-- What is seen of a map. -/
inductive MapEvent (Key Value Query Answer : Type) where
  | stored (key : Key) (value : Value)
  | refused (key : Key)
  | removed (key : Key)
  | asked (key : Key) (query : Query) (answer : Option Answer)

/-- The entries of a list are those of a map: every key that has a value is there once, with
its value. -/
structure Enumerates {Key Value : Type} (entries : List (Key × Value)) (map : Key → Option Value) :
    Prop where
  once : (entries.map Prod.fst).Nodup
  exact : ∀ key value, (key, value) ∈ entries ↔ map key = some value

variable {Key Value Query Answer : Type} [DecidableEq Key]

/-- The machine that makes these events. -/
inductive MapStep (view : Query → Value → Answer) (map : Key → Option Value) :
    MapEvent Key Value Query Answer → (Key → Option Value) → Prop where
  | stored (key : Key) (value : Value) :
      MapStep view map (.stored key value) (Function.update map key (some value))
  | refused (key : Key) (there : map key ≠ none) : MapStep view map (.refused key) map
  | removed (key : Key) : MapStep view map (.removed key) (Function.update map key none)
  | asked (key : Key) (query : Query) :
      MapStep view map (.asked key query ((map key).map (view query))) map

namespace MapEvent

/-- What a key has after an event. -/
def content (key : Key) (before : Option Value) : MapEvent Key Value Query Answer → Option Value
  | .stored other value => if other = key then some value else before
  | .removed other => if other = key then none else before
  | .refused _ => before
  | .asked _ _ _ => before

/-- What a key has after a list of events, when it had nothing before. -/
def latest (key : Key) (events : List (MapEvent Key Value Query Answer)) : Option Value :=
  events.foldl (content key) none

/-- An event that leaves what a key has. -/
def Spares (key : Key) : MapEvent Key Value Query Answer → Prop
  | .stored other _ => other ≠ key
  | .removed other => other ≠ key
  | .refused _ => True
  | .asked _ _ _ => True

variable {key : Key} {value : Value} {events later : List (MapEvent Key Value Query Answer)}

/-- What a key has after a last event is what the event makes of it. -/
theorem latest_concat (event : MapEvent Key Value Query Answer) :
    latest key (events ++ [event]) = content key (latest key events) event := by
  simp [latest]

/-- Events that spare a key leave what it has. Induction is on the end of the list. -/
theorem latest_spared (spared : ∀ event ∈ later, Spares key event) :
    latest key (events ++ later) = latest key events := by
  induction later using List.reverseRecOn with
  | nil => simp
  | append_singleton before event inductionHypothesis =>
    have last : Spares key event := spared event (by simp)
    have front := inductionHypothesis fun other member => spared other (by simp [member])
    rw [← List.append_assoc, latest_concat, front]
    cases event with
    | stored other value => simp only [content, if_neg last]
    | removed other => simp only [content, if_neg last]
    | refused other => rfl
    | asked other query answer => rfl

/-- The last value that was stored is what the key has. -/
theorem latest_stored (spared : ∀ event ∈ later, Spares key event) :
    latest key (events ++ .stored key value :: later) = some value := by
  have front := @latest_spared Key Value Query Answer _ key (events ++ [.stored key value]) later
    spared
  rw [List.append_assoc, List.singleton_append] at front
  rw [front, latest_concat, content, if_pos rfl]

/-- A key that was removed has nothing until a value is stored. -/
theorem latest_removed (spared : ∀ event ∈ later, Spares key event) :
    latest key (events ++ .removed key :: later) = none := by
  have front := @latest_spared Key Value Query Answer _ key (events ++ [.removed key]) later spared
  rw [List.append_assoc, List.singleton_append] at front
  rw [front, latest_concat, content, if_pos rfl]

end MapEvent

open MapEvent

variable {view : Query → Value → Answer} {map after : Key → Option Value}
  {events : List (MapEvent Key Value Query Answer)}

/-- A step changes what its event says. -/
theorem MapStep.content {event : MapEvent Key Value Query Answer}
    (made : MapStep view map event after) (key : Key) :
    after key = MapEvent.content key (map key) event := by
  cases made with
  | stored other value =>
    by_cases same : other = key
    · simp [MapEvent.content, same]
    · simp [MapEvent.content, same, Function.update_of_ne (Ne.symm same)]
  | refused other _ => rfl
  | removed other =>
    by_cases same : other = key
    · simp [MapEvent.content, same]
    · simp [MapEvent.content, same, Function.update_of_ne (Ne.symm same)]
  | asked other query => rfl

/-- An empty map that has made a list of events has for every key the latest value. Induction
follows the events. -/
theorem Makes.latest (made : Makes (MapStep view) (fun _ => none) events map) (key : Key) :
    map key = MapEvent.latest key events := by
  induction made with
  | start => rfl
  | further _ taken inductionHypothesis =>
    rw [taken.content key, inductionHypothesis, latest_concat]

/-- Every answer in a list of events that an empty map has made is about the latest value, and
a key that refuses a value has one. -/
structure AnswersLatest (view : Query → Value → Answer)
    (events : List (MapEvent Key Value Query Answer)) : Prop where
  asked : ∀ before key query answer later, events = before ++ .asked key query answer :: later →
    answer = (MapEvent.latest key before).map (view query)
  refused : ∀ before key later, events = before ++ .refused key :: later →
    MapEvent.latest key before ≠ none

/-- A key that is asked for shows the value that was stored last, when no event touched the key
since then. -/
theorem AnswersLatest.after_stored (answers : AnswersLatest view events) {key : Key} {value : Value}
    {query : Query} {answer : Option Answer}
    {before between later : List (MapEvent Key Value Query Answer)}
    (split : events = before ++ .stored key value :: between ++ .asked key query answer :: later)
    (spared : ∀ event ∈ between, Spares key event) : answer = some (view query value) := by
  rw [answers.asked _ key query answer later split, latest_stored spared]
  rfl

/-- It is not there after it was removed. -/
theorem AnswersLatest.after_removed (answers : AnswersLatest view events) {key : Key}
    {query : Query} {answer : Option Answer}
    {before between later : List (MapEvent Key Value Query Answer)}
    (split : events = before ++ .removed key :: between ++ .asked key query answer :: later)
    (spared : ∀ event ∈ between, Spares key event) : answer = none := by
  rw [answers.asked _ key query answer later split, latest_removed spared]
  rfl

/-- An empty map answers by what was stored last. -/
theorem Makes.answersLatest (made : Makes (MapStep view) (fun _ => none) events map) :
    AnswersLatest view events := by
  have prior : ∀ before event later, events = before ++ event :: later →
      ∃ between next, MapStep view between event next ∧
        ∀ key, between key = MapEvent.latest key before := by
    intro before event later split
    rw [split, ← List.singleton_append, ← List.append_assoc] at made
    obtain ⟨next, front, _⟩ := made.split
    obtain ⟨between, first, taken⟩ := front.last
    exact ⟨between, next, taken, fun key => first.latest key⟩
  constructor
  · intro before key query answer later split
    obtain ⟨between, next, taken, content⟩ := prior before _ later split
    cases taken with
    | asked => rw [← content key]
  · intro before key later split
    obtain ⟨between, next, taken, content⟩ := prior before _ later split
    cases taken with
    | refused _ there =>
      rw [← content key]
      exact there

end Nvmkv
