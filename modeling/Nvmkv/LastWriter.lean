import Mathlib.Data.List.Induction

/-!
# The last writer of a place

A patch gives some places a new value and says nothing about the others. After a list of
patches every place has the value of the last patch that speaks about it, and what it had
before when none does. The patches of a list are those of its entries, so that a list can be
narrowed to the entries that matter at a place.
-/

namespace Nvmkv

universe u v w
variable {α : Type u} {β : Type v} {ι : Type w}

/-- What a place has after one patch. -/
def overlay (base : α → β) (patch : α → Option β) : α → β := fun place =>
  (patch place).getD (base place)

/-- What the last entry that speaks about a place says. -/
def lastWrite (patch : ι → α → Option β) (entries : List ι) (place : α) : Option β :=
  entries.reverse.findSome? fun entry => patch entry place

variable {patch : ι → α → Option β} {entries : List ι} {place : α}

/-- Behind some entries come others, which have the last word. -/
theorem lastWrite_append (earlier later : List ι) :
    lastWrite patch (earlier ++ later) place =
      (lastWrite patch later place).or (lastWrite patch earlier place) := by
  rw [lastWrite, List.reverse_append, List.findSome?_append]
  rfl

/-- No entry writes a place when none of them touches it. -/
theorem lastWrite_eq_none_iff :
    lastWrite patch entries place = none ↔ ∀ entry ∈ entries, patch entry place = none := by
  simp [lastWrite, List.findSome?_eq_none_iff]

/-- The value of a place was said by one of the entries. -/
theorem lastWrite_mem {value : β} (last : lastWrite patch entries place = some value) :
    ∃ entry ∈ entries, patch entry place = some value := by
  obtain ⟨entry, member, given⟩ := List.exists_of_findSome?_eq_some last
  exact ⟨entry, List.mem_reverse.mp member, given⟩

/-- Some entry speaks about a place when one of them has the last word. -/
theorem lastWrite_isSome_iff :
    (lastWrite patch entries place).isSome ↔ ∃ entry ∈ entries, (patch entry place).isSome := by
  rw [← Option.ne_none_iff_isSome, ne_eq, lastWrite_eq_none_iff]
  push Not
  simp only [Option.ne_none_iff_isSome]

/-- An entry has the last word where no later one speaks. -/
theorem lastWrite_of_silent {earlier later : List ι} {entry : ι} {value : β}
    (given : patch entry place = some value) (silent : ∀ other ∈ later, patch other place = none) :
    lastWrite patch (earlier ++ entry :: later) place = some value := by
  have last : lastWrite patch (entry :: later) place = some value := by
    rw [← List.singleton_append, lastWrite_append, lastWrite_eq_none_iff.mpr silent,
      Option.none_or]
    simp [lastWrite, given]
  rw [lastWrite_append, last, Option.some_or]

/-- Patching by a list of entries. Induction is on the last entry. -/
theorem foldl_overlay (base : α → β) :
    entries.foldl (fun base entry => overlay base (patch entry)) base place =
      (lastWrite patch entries place).getD (base place) := by
  induction entries using List.reverseRecOn with
  | nil => rfl
  | append_singleton earlier entry inductionHypothesis =>
    rw [List.foldl_append, lastWrite_append]
    simp only [List.foldl_cons, List.foldl_nil, overlay, inductionHypothesis]
    cases given : patch entry place <;> simp [lastWrite, given]

/-- Entries may be replaced by others that say the same about another place. -/
theorem lastWrite_map {κ : Type w} {γ : Type u} {other : κ → γ → Option β} {image : ι → κ}
    {there : γ} (same : ∀ entry ∈ entries, patch entry place = other (image entry) there) :
    lastWrite patch entries place = lastWrite other (entries.map image) there := by
  induction entries using List.reverseRecOn with
  | nil => rfl
  | append_singleton earlier entry inductionHypothesis =>
    have last : lastWrite patch [entry] place = lastWrite other [image entry] there := by
      simp [lastWrite, same entry (List.mem_append_right _ List.mem_cons_self)]
    have others := inductionHypothesis fun entry member =>
      same entry (List.mem_append_left _ member)
    rw [List.map_append, lastWrite_append, lastWrite_append, others, last, List.map_singleton]

/-- What is said may be changed in every patch or in the last word. -/
theorem lastWrite_image {γ : Type v} (change : β → γ) :
    lastWrite (fun entry place => (patch entry place).map change) entries place =
      (lastWrite patch entries place).map change := by
  induction entries using List.reverseRecOn with
  | nil => rfl
  | append_singleton earlier entry inductionHypothesis =>
    rw [lastWrite_append, lastWrite_append, inductionHypothesis]
    cases given : patch entry place <;> simp [lastWrite, given]

end Nvmkv
