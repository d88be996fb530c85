import Mathlib.Data.Nat.Find
import Mathlib.Logic.Function.Basic

/-!
# Tables probed along a path

A hash table with open addressing keeps every key in one of the first few slots of
the key's path. A lookup walks along the path, passes the slots of other keys and
stops at the key or at a hole. What makes such a table a partial map is that no key
lies behind a hole of its own path: then a lookup finds every key, and no key is there
twice.

The paths are arbitrary: two keys may share slots, and one path may come to a slot
more than once. A table is seen only as the keys in its slots.
-/

namespace Nvmkv

variable {Slot Key : Type}

/-- The slots in which each key is looked for, and how many of them are tried. -/
structure ProbePaths (Slot Key : Type) where
  limit : Nat
  slot : Key → Nat → Slot

namespace ProbePaths

variable (paths : ProbePaths Slot Key)

/-- The first slots on the path of a key hold other keys, so a lookup passes them. -/
def Passes (table : Slot → Option Key) (key : Key) (reach : Nat) : Prop :=
  ∀ probe < reach, ∃ other, table (paths.slot key probe) = some other ∧ other ≠ key

/-- A lookup of the key comes to this probe and finds the key there. -/
structure Finds (table : Slot → Option Key) (key : Key) (probe : Nat) : Prop where
  within : probe < paths.limit
  passed : paths.Passes table key probe
  own : table (paths.slot key probe) = some key

/-- Every key of the table is where a lookup finds it. -/
def WellPlaced (table : Slot → Option Key) : Prop :=
  ∀ slot key, table slot = some key →
    ∃ probe, paths.slot key probe = slot ∧ paths.Finds table key probe

/-- No lookup that finds its key passes the slot on its way. -/
def FrontsNone (table : Slot → Option Key) (slot : Slot) : Prop :=
  ∀ key probe, paths.Finds table key probe → ∀ before < probe, paths.slot key before ≠ slot

variable {paths} {table : Slot → Option Key} {key : Key} {probe : Nat}

/-- A lookup has one result: at the smaller of two finds the key would be passed. -/
theorem Finds.unique {other : Nat} (first : paths.Finds table key probe)
    (second : paths.Finds table key other) : probe = other := by
  have noEarlier : ∀ {low high : Nat}, paths.Finds table key low →
      paths.Finds table key high → ¬ low < high := by
    intro low high found later less
    obtain ⟨holder, held, different⟩ := later.passed low less
    rw [found.own] at held
    exact different (Option.some.inj held).symm
  exact Nat.le_antisymm (Nat.le_of_not_lt (noEarlier second first))
    (Nat.le_of_not_lt (noEarlier first second))

/-- No key is found after a hole that its lookup comes to. -/
theorem Passes.not_finds_of_hole (passes : paths.Passes table key probe)
    (hole : table (paths.slot key probe) = none) (found : Nat) :
    ¬ paths.Finds table key found := by
  intro finds
  rcases Nat.lt_trichotomy found probe with before | same | after
  · obtain ⟨holder, held, different⟩ := passes found before
    rw [finds.own] at held
    exact different (Option.some.inj held).symm
  · have held := finds.own
    rw [same, hole] at held
    cases held
  · obtain ⟨holder, held, _⟩ := finds.passed probe after
    rw [hole] at held
    cases held

/-- No key is found when all the slots that are tried hold other keys. -/
theorem Passes.not_finds (passes : paths.Passes table key paths.limit) (found : Nat) :
    ¬ paths.Finds table key found := by
  intro finds
  obtain ⟨holder, held, different⟩ := passes found finds.within
  rw [finds.own] at held
  exact different (Option.some.inj held).symm

/-- The first visit to a slot of a path without a hole: the visits before are to other
slots. -/
theorem Passes.first_visit [DecidableEq Slot] (passes : paths.Passes table key paths.limit)
    (within : probe < paths.limit) :
    ∃ first < paths.limit, paths.slot key first = paths.slot key probe ∧
      paths.Passes table key first ∧
      ∀ before < first, paths.slot key before ≠ paths.slot key first := by
  have visited : ∃ first, paths.slot key first = paths.slot key probe := ⟨probe, rfl⟩
  have here : paths.slot key (Nat.find visited) = paths.slot key probe := Nat.find_spec visited
  have firstWithin : Nat.find visited < paths.limit :=
    Nat.lt_of_le_of_lt (Nat.find_min' visited rfl) within
  refine ⟨Nat.find visited, firstWithin, here, ?_, ?_⟩
  · intro before earlier
    exact passes before (Nat.lt_trans earlier firstWithin)
  · intro before earlier
    rw [here]
    exact Nat.find_min visited earlier

/-- The slots that are passed before a hole are not the hole. -/
theorem Passes.apart_of_hole (passes : paths.Passes table key probe)
    (hole : table (paths.slot key probe) = none) :
    ∀ before < probe, paths.slot key before ≠ paths.slot key probe := by
  intro before earlier same
  obtain ⟨other, held, -⟩ := passes before earlier
  rw [same, hole] at held
  cases held

/-- A key is found where it was written, if its lookup comes there first. -/
theorem Passes.finds_written [DecidableEq Slot] (passes : paths.Passes table key probe)
    (within : probe < paths.limit)
    (reached : ∀ before < probe, paths.slot key before ≠ paths.slot key probe) :
    paths.Finds (Function.update table (paths.slot key probe) (some key)) key probe where
  within := within
  passed := by
    intro before earlier
    rw [Function.update_of_ne (reached before earlier)]
    exact passes before earlier
  own := Function.update_self _ _ _

namespace WellPlaced

variable (placed : paths.WellPlaced table)
include placed

/-- A key is in one slot at most, the one where it is found. -/
theorem unique {slot other : Slot} (here : table slot = some key)
    (there : table other = some key) : slot = other := by
  obtain ⟨probe, atSlot, finds⟩ := placed slot key here
  obtain ⟨probe', atOther, finds'⟩ := placed other key there
  rw [← atSlot, ← atOther, finds.unique finds']

/-- The keys that are found are the keys of the table. -/
theorem finds_iff :
    (∃ probe, paths.Finds table key probe) ↔ ∃ slot, table slot = some key := by
  constructor
  · rintro ⟨probe, finds⟩
    exact ⟨_, finds.own⟩
  · rintro ⟨slot, here⟩
    obtain ⟨probe, -, finds⟩ := placed slot key here
    exact ⟨probe, finds⟩

variable [DecidableEq Slot]

/-- A key that the table does not have may be written to a slot of its path, over
whatever is there, if its lookup passes the slots before. Every other key is found as
before: a slot that its lookup passes is at most given another owner. -/
theorem write (within : probe < paths.limit) (passes : paths.Passes table key probe)
    (reached : ∀ before < probe, paths.slot key before ≠ paths.slot key probe)
    (absent : ∀ found, ¬ paths.Finds table key found) :
    paths.WellPlaced (Function.update table (paths.slot key probe) (some key)) := by
  intro slot held heldAt
  by_cases written : slot = paths.slot key probe
  · subst written
    rw [Function.update_self] at heldAt
    cases heldAt
    exact ⟨probe, rfl, passes.finds_written within reached⟩
  · rw [Function.update_of_ne written] at heldAt
    obtain ⟨found, atSlot, finds⟩ := placed slot held heldAt
    have different : key ≠ held := by
      intro same
      subst same
      exact absent found finds
    refine ⟨found, atSlot, finds.within, ?_, ?_⟩
    · intro before earlier
      by_cases passed : paths.slot held before = paths.slot key probe
      · exact ⟨key, by rw [passed, Function.update_self], different⟩
      · rw [Function.update_of_ne passed]
        exact finds.passed before earlier
    · rw [atSlot, Function.update_of_ne written]
      exact heldAt

/-- The first hole of a key's path may be filled with the key. -/
theorem fill (within : probe < paths.limit) (passes : paths.Passes table key probe)
    (hole : table (paths.slot key probe) = none) :
    paths.WellPlaced (Function.update table (paths.slot key probe) (some key)) := by
  exact placed.write within passes (passes.apart_of_hole hole) (passes.not_finds_of_hole hole)

/-- A slot of a path without a hole and without the key may be given to the key. The
slot counts from the first probe that comes to it. -/
theorem replace (within : probe < paths.limit) (passes : paths.Passes table key paths.limit) :
    paths.WellPlaced (Function.update table (paths.slot key probe) (some key)) := by
  obtain ⟨first, firstWithin, here, passesFirst, apart⟩ := passes.first_visit within
  rw [← here]
  exact placed.write firstWithin passesFirst apart passes.not_finds

/-- A slot may be emptied exactly when no key behind it is found past it. Emptied
otherwise, it is a hole in front of a key that is still there. -/
theorem empty_iff (slot : Slot) :
    paths.WellPlaced (Function.update table slot none) ↔ paths.FrontsNone table slot := by
  constructor
  · intro after held probe finds before earlier same
    obtain ⟨other, passedOver, different⟩ := finds.passed before earlier
    have apart : paths.slot held probe ≠ slot := by
      intro emptied
      rw [same, ← emptied, finds.own] at passedOver
      exact different (Option.some.inj passedOver).symm
    have kept : Function.update table slot none (paths.slot held probe) = some held := by
      rw [Function.update_of_ne apart, finds.own]
    have hole : Function.update table slot none (paths.slot held before) = none := by
      rw [same, Function.update_self]
    obtain ⟨found, -, findsAfter⟩ := after _ held kept
    have noLater : found < before := by
      rcases Nat.lt_trichotomy found before with less | equal | more
      · exact less
      · have own := findsAfter.own
        rw [equal, hole] at own
        cases own
      · obtain ⟨holder, passedHole, -⟩ := findsAfter.passed before more
        rw [hole] at passedHole
        cases passedHole
    obtain ⟨holder, passedKey, notOwn⟩ := finds.passed found (Nat.lt_trans noLater earlier)
    have own := findsAfter.own
    by_cases emptied : paths.slot held found = slot
    · rw [emptied, Function.update_self] at own
      cases own
    · rw [Function.update_of_ne emptied, passedKey] at own
      exact notOwn (Option.some.inj own)
  · intro fronts other held heldAt
    have apart : other ≠ slot := by
      intro same
      rw [same, Function.update_self] at heldAt
      cases heldAt
    rw [Function.update_of_ne apart] at heldAt
    obtain ⟨found, atSlot, finds⟩ := placed other held heldAt
    refine ⟨found, atSlot, finds.within, ?_, ?_⟩
    · intro before earlier
      rw [Function.update_of_ne (fronts held found finds before earlier)]
      exact finds.passed before earlier
    · rw [atSlot, Function.update_of_ne apart]
      exact heldAt

end WellPlaced

end ProbePaths

end Nvmkv
