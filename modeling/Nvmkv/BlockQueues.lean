import Mathlib.Data.List.Basic

/-!
# Queues of blocks

Entries are collected in blocks of a fixed size. A new entry goes to the last block while
that one has room, and to a new block behind it otherwise; blocks are taken from the front
once they are full. Nothing is said here about what an entry is, or about when a producer
leaves an entry out.

What the order of producers and consumers cannot change is `Filled`: blocks in front of the
last one are full, and no block is empty or longer than the limit. The entries of all blocks
in a row are the queue as it would be without blocks. A producer that hands every block on
when it is full has `Collected` its entries instead.
-/

namespace Nvmkv.BlockQueue

variable {α : Type}

/-- The blocks that stay as they are, and the one that the next entry goes to. -/
def split (limit : Nat) (blocks : List (List α)) : List (List α) × List α :=
  match blocks.getLast? with
  | none => (blocks, [])
  | some last => if last.length = limit then (blocks, []) else (blocks.dropLast, last)

/-- Take the first block when it is full. -/
def take (limit : Nat) : List (List α) → Option (List α × List (List α))
  | [] => none
  | block :: rest => if block.length < limit then none else some (block, rest)

/-- Blocks in front of the last one are full, and every block has some entries but no more
than the limit. -/
structure Filled (limit : Nat) (blocks : List (List α)) : Prop where
  full : ∀ block ∈ blocks.dropLast, block.length = limit
  sized : ∀ block ∈ blocks, 0 < block.length ∧ block.length ≤ limit

variable {limit : Nat} {blocks : List (List α)}

/-- No entry is lost where the queue is split. -/
theorem split_flatten (limit : Nat) (blocks : List (List α)) :
    (split limit blocks).1.flatten ++ (split limit blocks).2 = blocks.flatten := by
  unfold split
  cases ends : blocks.getLast? with
  | none => exact List.append_nil _
  | some last =>
    dsimp only
    split
    · exact List.append_nil _
    · conv_rhs => rw [← List.dropLast_append_getLast? last ends]
      rw [List.flatten_append, List.flatten_singleton]

/-- A block that has entries already is the last one of the queue. -/
theorem split_last (begun : (split limit blocks).2 ≠ []) :
    (split limit blocks).1 ++ [(split limit blocks).2] = blocks := by
  unfold split at begun ⊢
  cases ends : blocks.getLast? with
  | none =>
    rw [ends] at begun
    exact absurd rfl begun
  | some last =>
    rw [ends] at begun
    dsimp only at begun ⊢
    by_cases whole : last.length = limit
    · rw [if_pos whole] at begun
      exact absurd rfl begun
    · rw [if_neg whole]
      exact List.dropLast_append_getLast? last ends

namespace Filled

/-- An empty queue is filled. -/
theorem nil : Filled limit ([] : List (List α)) := by
  constructor
  · intro block absent
    cases absent
  · intro block absent
    cases absent

/-- The blocks that stay as they are are full. -/
theorem split_full (filled : Filled limit blocks) {block : List α}
    (member : block ∈ (split limit blocks).1) : block.length = limit := by
  unfold split at member
  cases ends : blocks.getLast? with
  | none =>
    rw [ends, List.getLast?_eq_none_iff.mp ends] at member
    cases member
  | some last =>
    rw [ends] at member
    dsimp only at member
    by_cases whole : last.length = limit
    · rw [if_pos whole, ← List.dropLast_append_getLast? last ends] at member
      rcases List.mem_append.mp member with front | back
      · exact filled.full block front
      · rw [List.mem_singleton.mp back]
        exact whole
    · rw [if_neg whole] at member
      exact filled.full block member

/-- The block for the next entry has room for it. -/
theorem split_room (filled : Filled limit blocks) (positive : 0 < limit) :
    (split limit blocks).2.length < limit := by
  unfold split
  cases ends : blocks.getLast? with
  | none => exact positive
  | some last =>
    dsimp only
    split
    · exact positive
    · have bounded := (filled.sized last (List.mem_of_getLast? ends)).2
      dsimp only
      omega

/-- Adding an entry. -/
theorem put (filled : Filled limit blocks) (positive : 0 < limit) (entry : α) :
    Filled limit ((split limit blocks).1 ++ [(split limit blocks).2 ++ [entry]]) := by
  have room := filled.split_room positive
  constructor
  · intro block member
    rw [List.dropLast_concat] at member
    exact filled.split_full member
  · intro block member
    rcases List.mem_append.mp member with front | back
    · rw [filled.split_full front]
      exact ⟨positive, Nat.le_refl _⟩
    · rw [List.mem_singleton.mp back, List.length_append, List.length_singleton]
      omega

/-- Taking the first block. -/
theorem tail {block : List α} {rest : List (List α)} (filled : Filled limit (block :: rest)) :
    Filled limit rest := by
  constructor
  · intro other member
    apply filled.full
    cases rest with
    | nil => cases member
    | cons next further => exact List.mem_cons_of_mem _ member
  · exact fun other member => filled.sized other (List.mem_cons_of_mem _ member)

end Filled

/-- What is taken is the first block, which is not short. -/
theorem take_eq {block : List α} {rest : List (List α)}
    (taken : take limit blocks = some (block, rest)) :
    blocks = block :: rest ∧ limit ≤ block.length := by
  cases blocks with
  | nil => cases taken
  | cons first further =>
    rw [take] at taken
    split at taken
    · cases taken
    · rename_i enough
      obtain ⟨rfl, rfl⟩ := Prod.mk.inj (Option.some.inj taken)
      exact ⟨rfl, Nat.le_of_not_lt enough⟩

/-- In a queue of such blocks it is full. -/
theorem take_full {block : List α} {rest : List (List α)} (filled : Filled limit blocks)
    (taken : take limit blocks = some (block, rest)) :
    blocks = block :: rest ∧ block.length = limit := by
  obtain ⟨parts, enough⟩ := take_eq taken
  rw [parts] at filled
  have bounded := (filled.sized block List.mem_cons_self).2
  exact ⟨parts, by omega⟩

/-- Entries in the order in which they came: those of the full blocks that have been
handed on, and those of a block that still has room. -/
structure Collected (limit : Nat) (entries : List α) (blocks : List (List α))
    (rest : List α) : Prop where
  flatten : blocks.flatten ++ rest = entries
  full : ∀ block ∈ blocks, block.length = limit
  room : rest.length < limit

namespace Collected

variable {entries more rest later : List α} {blocks further : List (List α)}

/-- Blocks that are handed on have entries, and no more than the limit. -/
theorem sized (collected : Collected limit entries blocks rest) (positive : 0 < limit)
    {block : List α} (member : block ∈ blocks) : 0 < block.length ∧ block.length ≤ limit := by
  rw [collected.full block member]
  exact ⟨positive, Nat.le_refl _⟩

/-- Nothing is handed on while there is room. -/
theorem keep (room : entries.length < limit) : Collected limit entries [] entries := by
  constructor
  · rfl
  · intro block absent
    cases absent
  · exact room

/-- A block is handed on when it is full. -/
theorem hand (full : entries.length = limit) (positive : 0 < limit) :
    Collected limit entries [entries] [] := by
  constructor
  · simp
  · simp [full]
  · exact positive

/-- Entries that come later join those that are left. -/
theorem append (first : Collected limit entries blocks rest)
    (second : Collected limit (rest ++ more) further later) :
    Collected limit (entries ++ more) (blocks ++ further) later := by
  constructor
  · rw [List.flatten_append, List.append_assoc, second.flatten, ← List.append_assoc,
      first.flatten]
  · intro block member
    rcases List.mem_append.mp member with front | back
    · exact first.full block front
    · exact second.full block back
  · exact second.room

end Collected

end Nvmkv.BlockQueue
