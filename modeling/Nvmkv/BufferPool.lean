import Mathlib.Data.List.Count
import Mathlib.Data.List.Nodup
import Mathlib.Logic.Function.Basic
import Nvmkv.Common

/-!
# The pool of buffers

`kv_buffer_pool.cpp`: buffers that are allocated once and taken and released by the
calls of a store manager. The buffer released last is taken first. When it is too small,
a new one is allocated in its place, and when there is no memory for that nothing is
taken. A call that finds the pool empty waits.

Releasing a buffer adds it to the pool, whoever releases it and as often as it is
released. The pool does not know who has a buffer. That is recorded beside it here, with
the buffers that are allocated; no operation reads the record.

A buffer is in its place when it is in the pool once and nobody has it, or when one call
has it and it is not in the pool. The operations keep every buffer in its place as long
as what is released was taken.
-/

namespace Nvmkv

/-- The buffers of the pool, the last one first, with their sizes. A buffer is named by
the number of its allocation, and nothing is the null pointer. Which calls have a buffer,
which buffers are allocated and what they hold is recorded, and whether there is memory
for an allocation. -/
structure BufferPool (ι : Type) where
  buffers : List (Option Nat × Nat)
  held : Nat → List ι
  allocated : Nat → Bool
  allocations : Nat
  memory : Nat → Bool
  contents : Nat → Region

namespace BufferPool

variable {ι : Type}

/-- The pool of a new store manager (`initialize`). -/
def initialized (numBuffers bufferLimit : Nat) (memory : Nat → Bool) (contents : Nat → Region) :
    BufferPool ι where
  buffers := (List.range numBuffers).map fun buff => (some buff, bufferLimit)
  held := fun _ => []
  allocated := fun buff => buff < numBuffers
  allocations := numBuffers
  memory := memory
  contents := contents

/-- Take the last buffer, or a new one of the given size in its place (`get_buf`). Nothing
is answered while there is no buffer. -/
def getBuf (call : ι) (size : Nat) (pool : BufferPool ι) :
    Option ((Option Nat × Nat) × BufferPool ι) :=
  match pool.buffers with
  | [] => none
  | (buffer, bufferSize) :: rest =>
      if bufferSize < size then
        if pool.memory pool.allocations then
          let newBuffer := pool.allocations
          some ((some newBuffer, size),
            { pool with
              buffers := rest
              held := Function.update pool.held newBuffer (call :: pool.held newBuffer)
              allocated := fun buff =>
                decide (buff = newBuffer) || (pool.allocated buff && decide (buffer ≠ some buff))
              allocations := pool.allocations + 1 })
        else
          some ((none, 0), { pool with allocations := pool.allocations + 1 })
      else
        some ((buffer, bufferSize),
          { pool with
            buffers := rest
            held :=
              match buffer with
              | some buff => Function.update pool.held buff (call :: pool.held buff)
              | none => pool.held })

/-- Add a buffer to the pool (`release_buf`). -/
def releaseBuf [DecidableEq ι] (call : ι) (buff : Option Nat) (size : Nat)
    (pool : BufferPool ι) : BufferPool ι :=
  { pool with
    buffers := (buff, size) :: pool.buffers
    held :=
      match buff with
      | some buff => Function.update pool.held buff ((pool.held buff).erase call)
      | none => pool.held }

/-- What is in a buffer, after something was written to it. -/
def useBuf (buff : Nat) (written : Option Region) (pool : BufferPool ι) :
    Region × BufferPool ι :=
  match written with
  | none => (pool.contents buff, pool)
  | some bytes => (bytes, { pool with contents := Function.update pool.contents buff bytes })

/-- How often a buffer is in the pool. -/
def copies (pool : BufferPool ι) (buff : Nat) : Nat :=
  (pool.buffers.map Prod.fst).count (some buff)

/-- A buffer is in the pool exactly once, or one call has it. -/
def InPlace (pool : BufferPool ι) (buff : Nat) : Prop :=
  (pool.copies buff = 1 ∧ pool.held buff = []) ∨
    (pool.copies buff = 0 ∧ ∃ call, pool.held buff = [call])

/-- Every buffer is in its place. Memory that is not allocated for a buffer is nowhere. -/
structure AllInPlace (pool : BufferPool ι) : Prop where
  placed : ∀ buff, pool.allocated buff = true → pool.InPlace buff
  nowhere : ∀ buff, pool.allocated buff = false → pool.copies buff = 0 ∧ pool.held buff = []
  numbered : ∀ buff, pool.allocations ≤ buff → pool.allocated buff = false

/-- The buffer that a call has, if it has one. -/
def Has (pool : BufferPool ι) (call : ι) (mine : Option Nat) : Prop :=
  ∀ buff, pool.held buff = [call] ↔ mine = some buff

/-- The other calls keep what they have. -/
def OthersKeep (before after : BufferPool ι) (call : ι) : Prop :=
  ∀ other, other ≠ call → ∀ buff, after.held buff = [other] ↔ before.held buff = [other]

/-- The buffers of a new pool are all in it, once each, and nobody has one. -/
theorem initialized_inPlace (numBuffers bufferLimit : Nat) (memory : Nat → Bool)
    (contents : Nat → Region) :
    (initialized numBuffers bufferLimit memory contents : BufferPool ι).AllInPlace := by
  have copies : ∀ buff, (initialized numBuffers bufferLimit memory contents :
      BufferPool ι).copies buff = if buff < numBuffers then 1 else 0 := by
    intro buff
    have firsts : ((List.range numBuffers).map fun buff => (some buff, bufferLimit)).map Prod.fst =
        (List.range numBuffers).map (some : Nat → Option Nat) := by
      rw [List.map_map]
      rfl
    rw [BufferPool.copies, initialized, firsts,
      List.count_map_of_injective _ _ (Option.some_injective Nat)]
    rw [List.nodup_range.count]
    simp only [List.mem_range]
  refine ⟨?_, ?_, ?_⟩
  · intro buff allocated
    have inside : buff < numBuffers := of_decide_eq_true allocated
    exact Or.inl ⟨by rw [copies, if_pos inside], rfl⟩
  · intro buff free
    have outside : ¬buff < numBuffers := of_decide_eq_false free
    exact ⟨by rw [copies, if_neg outside], rfl⟩
  · intro buff above
    exact decide_eq_false (Nat.not_lt_of_le above)

section Operations

variable {pool : BufferPool ι} {call : ι} {size : Nat}

/-- What is in the pool is allocated, is there once, and nobody has it. -/
theorem AllInPlace.first {buff bufferSize : Nat} {rest : List (Option Nat × Nat)}
    (inPlace : pool.AllInPlace) (buffers : pool.buffers = (some buff, bufferSize) :: rest) :
    pool.allocated buff = true ∧ (rest.map Prod.fst).count (some buff) = 0 ∧
      pool.held buff = [] := by
  have copies : pool.copies buff = (rest.map Prod.fst).count (some buff) + 1 := by
    rw [BufferPool.copies, buffers, List.map_cons, List.count_cons_self]
  cases allocated : pool.allocated buff with
  | false =>
    have nowhere := (inPlace.nowhere buff allocated).1
    omega
  | true =>
    rcases inPlace.placed buff allocated with ⟨once, free⟩ | ⟨absent, _⟩
    · exact ⟨rfl, by omega, free⟩
    · omega

/-- Other buffers are in the rest of the pool as often as in the pool. -/
theorem copies_rest {buff bufferSize : Nat} {buffer : Option Nat} {rest : List (Option Nat × Nat)}
    (buffers : pool.buffers = (buffer, bufferSize) :: rest) (apart : buffer ≠ some buff) :
    (rest.map Prod.fst).count (some buff) = pool.copies buff := by
  rw [BufferPool.copies, buffers, List.map_cons, List.count_cons_of_ne apart]

/-- Buffers stay in their places when they stay where they are. -/
theorem AllInPlace.same {after : BufferPool ι} (inPlace : pool.AllInPlace)
    (copies : ∀ buff, after.copies buff = pool.copies buff) (held : after.held = pool.held)
    (allocated : after.allocated = pool.allocated)
    (allocations : pool.allocations ≤ after.allocations) : after.AllInPlace := by
  refine ⟨?_, ?_, ?_⟩
  · intro buff taken
    rw [InPlace, copies, held]
    exact inPlace.placed buff (allocated ▸ taken)
  · intro buff free
    rw [copies, held]
    exact inPlace.nowhere buff (allocated ▸ free)
  · intro buff above
    rw [allocated]
    exact inPlace.numbered buff (allocations.trans above)

/-- The others keep what they have when one buffer goes to a call from nobody. -/
theorem othersKeep_taken {after : BufferPool ι} {buff : Nat} (free : pool.held buff = [])
    (held : after.held = Function.update pool.held buff [call]) : pool.OthersKeep after call := by
  intro other apart buffer
  rw [held]
  by_cases same : buffer = buff
  · subst same
    rw [Function.update_self, free]
    exact ⟨fun owned => absurd (List.cons.inj owned).1.symm apart, nofun⟩
  · rw [Function.update_of_ne same]

/-- A call that had no buffer has the one that goes to it. -/
theorem has_taken {after : BufferPool ι} {buff : Nat} (none : pool.Has call none)
    (held : after.held = Function.update pool.held buff [call]) : after.Has call (some buff) := by
  intro buffer
  rw [held]
  by_cases same : buffer = buff
  · subst same
    rw [Function.update_self]
    exact ⟨fun _ => rfl, fun _ => rfl⟩
  · rw [Function.update_of_ne same, none buffer]
    exact ⟨nofun, fun taken => absurd (Option.some.inj taken).symm same⟩

/-- Taking a buffer keeps all of them in their places. A call that had none has what it was given
then, and a buffer given is as large as asked for. The cases are those of the call: a new buffer is
allocated and the one in the pool is freed, there is no memory, or the last buffer is taken. -/
theorem AllInPlace.getBuf (inPlace : pool.AllInPlace) {answer : Option Nat × Nat}
    {after : BufferPool ι} (taken : pool.getBuf call size = some (answer, after))
    (none : pool.Has call none) :
    after.AllInPlace ∧ after.Has call answer.1 ∧ pool.OthersKeep after call ∧
      (answer.1 ≠ Option.none → size ≤ answer.2) := by
  unfold BufferPool.getBuf at taken
  split at taken
  · exact nomatch taken
  · rename_i buffer bufferSize rest buffers
    split_ifs at taken with small memory
    · obtain ⟨rfl, rfl⟩ := Prod.mk.inj (Option.some.inj taken)
      have unused := inPlace.numbered pool.allocations (Nat.le_refl _)
      obtain ⟨unlisted, free⟩ := inPlace.nowhere pool.allocations unused
      have listed : ∀ buff, (rest.map Prod.fst).count (some buff) ≤ pool.copies buff := by
        intro buff
        rw [BufferPool.copies, buffers, List.map_cons]
        exact List.count_le_count_cons
      have held : Function.update pool.held pool.allocations
          (call :: pool.held pool.allocations) =
          Function.update pool.held pool.allocations [call] := by rw [free]
      refine ⟨⟨?_, ?_, ?_⟩, has_taken none held, othersKeep_taken free held,
        fun _ => Nat.le_refl _⟩
      · intro buff allocated
        rw [Bool.or_eq_true, decide_eq_true_iff, Bool.and_eq_true, decide_eq_true_iff] at allocated
        rw [InPlace, BufferPool.copies]
        dsimp only
        rcases allocated with rfl | ⟨old, other⟩
        · refine Or.inr ⟨by have fewer := listed pool.allocations; omega, call, ?_⟩
          rw [held, Function.update_self]
        · have apart : buff ≠ pool.allocations := by
            rintro rfl
            rw [unused] at old
            exact Bool.noConfusion old
          rw [copies_rest buffers other, Function.update_of_ne apart]
          exact inPlace.placed buff old
      · intro buff unallocated
        rw [Bool.or_eq_false_iff, decide_eq_false_iff_not, Bool.and_eq_false_iff,
          decide_eq_false_iff_not, not_not] at unallocated
        obtain ⟨apart, gone⟩ := unallocated
        rw [BufferPool.copies]
        dsimp only
        rw [Function.update_of_ne apart]
        rcases gone with old | rfl
        · obtain ⟨absent, free⟩ := inPlace.nowhere buff old
          exact ⟨by have fewer := listed buff; omega, free⟩
        · exact (inPlace.first buffers).2
      · intro buff above
        have apart : buff ≠ pool.allocations := by
          dsimp only at above
          omega
        dsimp only at above ⊢
        rw [decide_eq_false apart, inPlace.numbered buff (by omega)]
        rfl
    · obtain ⟨rfl, rfl⟩ := Prod.mk.inj (Option.some.inj taken)
      exact ⟨inPlace.same (fun _ => rfl) rfl rfl (Nat.le_succ _), none, fun _ _ _ => Iff.rfl,
        fun impossible => absurd rfl impossible⟩
    · obtain ⟨rfl, rfl⟩ := Prod.mk.inj (Option.some.inj taken)
      have large : size ≤ bufferSize := Nat.le_of_not_lt small
      cases buffer with
      | none =>
        refine ⟨inPlace.same (fun buff => ?_) rfl rfl (Nat.le_refl _), none,
          fun _ _ _ => Iff.rfl, fun _ => large⟩
        exact copies_rest buffers (by simp)
      | some buff =>
        obtain ⟨_, alone, free⟩ := inPlace.first buffers
        have held : Function.update pool.held buff (call :: pool.held buff) =
            Function.update pool.held buff [call] := by rw [free]
        refine ⟨⟨?_, ?_, inPlace.numbered⟩, has_taken none held, othersKeep_taken free held,
          fun _ => large⟩
        · intro other allocated
          rw [InPlace, BufferPool.copies]
          dsimp only
          rw [held]
          by_cases same : other = buff
          · subst same
            exact Or.inr ⟨alone, call, Function.update_self _ _ _⟩
          · rw [copies_rest buffers (by simpa using Ne.symm same), Function.update_of_ne same]
            exact inPlace.placed other allocated
        · intro other unallocated
          have apart : other ≠ buff := by
            rintro rfl
            have allocated := (inPlace.first buffers).1
            exact Bool.noConfusion (unallocated.symm.trans allocated)
          rw [BufferPool.copies]
          dsimp only
          rw [held, copies_rest buffers (by simpa using Ne.symm apart),
            Function.update_of_ne apart]
          exact inPlace.nowhere other unallocated

/-- Releasing the buffer that a call has keeps all of them in their places. -/
theorem AllInPlace.releaseBuf [DecidableEq ι] (inPlace : pool.AllInPlace) {buff : Option Nat}
    (mine : pool.Has call buff) :
    (pool.releaseBuf call buff size).AllInPlace ∧ (pool.releaseBuf call buff size).Has call none ∧
      pool.OthersKeep (pool.releaseBuf call buff size) call := by
  cases buff with
  | none =>
    refine ⟨inPlace.same (fun buff => ?_) rfl rfl (Nat.le_refl _), mine, fun _ _ _ => Iff.rfl⟩
    rw [BufferPool.copies, BufferPool.releaseBuf, List.map_cons, List.count_cons_of_ne (by simp),
      BufferPool.copies]
  | some buff =>
    have held : pool.held buff = [call] := (mine buff).mpr rfl
    have copiesHere : (pool.releaseBuf call (some buff) size).copies buff =
        pool.copies buff + 1 := by
      rw [BufferPool.copies, BufferPool.releaseBuf, List.map_cons, List.count_cons_self,
        BufferPool.copies]
    have copiesElse : ∀ other, other ≠ buff →
        (pool.releaseBuf call (some buff) size).copies other = pool.copies other := by
      intro other apart
      rw [BufferPool.copies, BufferPool.releaseBuf, List.map_cons,
        List.count_cons_of_ne (by simpa using apart.symm), BufferPool.copies]
    have heldHere : (pool.releaseBuf call (some buff) size).held buff = [] := by
      rw [BufferPool.releaseBuf]
      dsimp only
      rw [Function.update_self, held, List.erase_cons_head]
    have heldElse : ∀ other, other ≠ buff →
        (pool.releaseBuf call (some buff) size).held other = pool.held other :=
      fun other apart => Function.update_of_ne apart _ _
    have absent : pool.copies buff = 0 := by
      cases allocated : pool.allocated buff with
      | false => exact (inPlace.nowhere buff allocated).1
      | true =>
        rcases inPlace.placed buff allocated with ⟨_, free⟩ | ⟨absent, _⟩
        · rw [held] at free
          exact nomatch free
        · exact absent
    refine ⟨⟨?_, ?_, inPlace.numbered⟩, ?_, ?_⟩
    · intro other allocated
      by_cases same : other = buff
      · subst same
        exact Or.inl ⟨by rw [copiesHere, absent], heldHere⟩
      · rw [InPlace, copiesElse other same, heldElse other same]
        exact inPlace.placed other allocated
    · intro other free
      have apart : other ≠ buff := by
        rintro rfl
        have nowhere := (inPlace.nowhere other free).2
        rw [held] at nowhere
        exact nomatch nowhere
      rw [copiesElse other apart, heldElse other apart]
      exact inPlace.nowhere other free
    · intro other
      by_cases same : other = buff
      · subst same
        rw [heldHere]
        exact ⟨nofun, nofun⟩
      · rw [heldElse other same, mine other]
        exact ⟨fun taken => absurd (Option.some.inj taken).symm same, nofun⟩
    · intro other apart buffer
      by_cases same : buffer = buff
      · subst same
        rw [heldHere, held]
        exact ⟨nofun, fun owned => absurd (List.cons.inj owned).1.symm apart⟩
      · rw [heldElse buffer same]

end Operations

end BufferPool

end Nvmkv
