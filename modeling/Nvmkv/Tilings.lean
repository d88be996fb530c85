import Mathlib.Data.List.Basic

/-!
# Lists of pieces that tile a run

A piece has a start and a size. The pieces of a list tile a run when the first one starts
where the run starts, every further one starts where the one before it ends, none is empty,
and the last one ends with the run. This is what a loop leaves that cuts a run from its
start: a step puts one piece before what the rest of the loop cuts, and two loops one
after the other put two tilings together.

What such a list covers is read off the run alone. Its places are covered once each and no
other place is covered, pieces further on in the list lie behind those before them, and
the sizes add up to the size of the run.
-/

namespace Nvmkv

variable {α : Type}

/-- The pieces follow each other without a gap from the place `first` to the place
`last`. -/
def Tiles (start size : α → Nat) : Nat → List α → Nat → Prop
  | first, [], last => first = last
  | first, piece :: rest, last =>
      start piece = first ∧ 0 < size piece ∧ Tiles start size (first + size piece) rest last

/-- A place is covered by a piece. -/
def PieceCovers (start size : α → Nat) (place : Nat) (piece : α) : Prop :=
  start piece ≤ place ∧ place < start piece + size piece

/-- Whether a piece covers a place can be computed. -/
instance (start size : α → Nat) (place : Nat) (piece : α) :
    Decidable (PieceCovers start size place piece) := inferInstanceAs (Decidable (_ ∧ _))

namespace Tiles

variable {start size : α → Nat} {first middle last : Nat} {pieces further : List α}

/-- A tiling of a run followed by one of the run behind it tiles both. -/
theorem append (front : Tiles start size first pieces middle)
    (back : Tiles start size middle further last) :
    Tiles start size first (pieces ++ further) last := by
  induction pieces generalizing first with
  | nil =>
    rw [Tiles] at front
    rw [List.nil_append, front]
    exact back
  | cons piece rest inductionHypothesis =>
    obtain ⟨starts, positive, tiled⟩ := front
    exact ⟨starts, positive, inductionHypothesis tiled⟩

/-- A run does not end before it starts. -/
theorem first_le (tiled : Tiles start size first pieces last) : first ≤ last := by
  induction pieces generalizing first with
  | nil =>
    rw [Tiles] at tiled
    exact Nat.le_of_eq tiled
  | cons piece rest inductionHypothesis =>
    obtain ⟨_, _, tiled⟩ := tiled
    have further := inductionHypothesis tiled
    omega

/-- A piece starts and ends in the run. -/
theorem inside {piece : α} (tiled : Tiles start size first pieces last)
    (member : piece ∈ pieces) : first ≤ start piece ∧ start piece + size piece ≤ last := by
  induction pieces generalizing first with
  | nil => cases member
  | cons head rest inductionHypothesis =>
    obtain ⟨starts, positive, tiled⟩ := tiled
    rcases List.mem_cons.mp member with rfl | later
    · have further := tiled.first_le
      omega
    · have further := inductionHypothesis tiled later
      omega

/-- There are no more pieces than places. -/
theorem length_le (tiled : Tiles start size first pieces last) : first + pieces.length ≤ last := by
  induction pieces generalizing first with
  | nil => exact Nat.le_of_eq tiled
  | cons piece rest inductionHypothesis =>
    obtain ⟨_, positive, tiled⟩ := tiled
    have further := inductionHypothesis tiled
    rw [List.length_cons]
    omega

/-- Nothing tiles an empty run. -/
theorem eq_nil (tiled : Tiles start size first pieces first) : pieces = [] := by
  have none := tiled.length_le
  apply List.eq_nil_of_length_eq_zero
  omega

/-- Pieces further on in the list lie behind those before them. -/
theorem apart (tiled : Tiles start size first pieces last) :
    pieces.Pairwise fun before behind => start before + size before ≤ start behind := by
  induction pieces generalizing first with
  | nil => exact List.Pairwise.nil
  | cons piece rest inductionHypothesis =>
    obtain ⟨starts, _, tiled⟩ := tiled
    constructor
    · intro behind member
      have further := tiled.inside member
      omega
    · exact inductionHypothesis tiled

/-- A place of the run is covered by one piece, and a place outside it by none. -/
theorem covered_once (tiled : Tiles start size first pieces last) (place : Nat) :
    pieces.countP (PieceCovers start size place) =
      if first ≤ place ∧ place < last then 1 else 0 := by
  induction pieces generalizing first with
  | nil =>
    rw [Tiles] at tiled
    rw [List.countP_nil, if_neg (by omega)]
  | cons piece rest inductionHypothesis =>
    obtain ⟨starts, positive, tiled⟩ := tiled
    have ends := tiled.first_le
    rw [List.countP_cons, inductionHypothesis tiled]
    simp only [PieceCovers, decide_eq_true_eq, starts]
    split_ifs <;> omega

end Tiles

end Nvmkv
