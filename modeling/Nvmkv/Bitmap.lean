import Mathlib.Data.Finset.Card
import Mathlib.Logic.Function.Basic

/-!
# Pool bitmaps

`kv_bitmap.cpp`: bits in an array of 32-bit words. A bit is set, cleared and
tested in its word; the searches walk over the words and, in a word that is not
full, over its bits. The three searches share one function in the code and
differ in what ends the walk, so they share one here.

`bitmap_test` of the changed bitmaps is all that the pool manager relies on.
-/

namespace Nvmkv

/-- The words of a bitmap (`kv_bitmap_t *`). -/
abbrev KvBitmap := Nat → BitVec 32

/-- The bitmap of zeroed memory. -/
def KvBitmap.zero : KvBitmap := fun _ => 0

/-- The bits of whole words (`round32`). -/
def round32 (value : Nat) : Nat := (value + 31) / 32 * 32

/-- The mask of a bit in its word (`bit_mask`). -/
def bitMask (value : Nat) : BitVec 32 := 1#32 <<< (value % 32)

/-- Set a bit. -/
def bitmapSet (pbm : KvBitmap) (index : Nat) : KvBitmap :=
  Function.update pbm (index / 32) (pbm (index / 32) ||| bitMask index)

/-- Clear a bit. -/
def bitmapClear (pbm : KvBitmap) (index : Nat) : KvBitmap :=
  Function.update pbm (index / 32) (pbm (index / 32) &&& ~~~bitMask index)

/-- Whether a bit is set. -/
def bitmapTest (pbm : KvBitmap) (index : Nat) : Bool := pbm (index / 32) &&& bitMask index ≠ 0

/-- What a search looks for. -/
inductive BitmapAction where
  | findFirstClear
  | findFirstSet
  | findFirstClearAndSet
  deriving DecidableEq

/-- Whether a bit of a word ends the walk over the word. -/
def bitmapStops (action : BitmapAction) (word : BitVec 32) (j : Nat) : Bool :=
  match action with
  | .findFirstSet => word &&& bitMask j ≠ 0
  | _ => word &&& bitMask j = 0

/-- The walk over the words from `i` on, of which `fuel` are left. The bit number
`j` is that of the last word walked over. Returns the index found and the
bitmap. -/
def bitmapHelperLoop (pbm : KvBitmap) (nbits : Nat) (action : BitmapAction) :
    (fuel i j : Nat) → Option Nat × KvBitmap
  | 0, _, _ => (none, pbm)
  | fuel + 1, i, j =>
      if pbm i ≠ 0xffffffff then
        match (List.range 32).find? (bitmapStops action (pbm i)) with
        | some j =>
            let idx := i * 32 + j
            if idx < nbits then
              (some idx,
                if action = .findFirstClearAndSet then
                  Function.update pbm i (pbm i ||| bitMask j)
                else pbm)
            else (none, pbm)
        | none => bitmapHelperLoop pbm nbits action fuel (i + 1) 32
      else if action = .findFirstSet then
        let idx := i * 32 + j
        (if idx < nbits then some idx else none, pbm)
      else
        bitmapHelperLoop pbm nbits action fuel (i + 1) j

/-- The search from the first word on, over the words of so many bits (`bitmap_helper`). -/
def bitmapHelper (pbm : KvBitmap) (nbits : Nat) (action : BitmapAction) : Option Nat × KvBitmap :=
  bitmapHelperLoop pbm nbits action (round32 nbits / 32) 0 0

/-- The first set bit; nothing stands for `BM_FULL`. -/
def bitmapFfs (pbm : KvBitmap) (nbits : Nat) : Option Nat :=
  (bitmapHelper pbm nbits .findFirstSet).1

/-- The first available bit, which is set. -/
def bitmapFfa (pbm : KvBitmap) (nbits : Nat) : Option Nat × KvBitmap :=
  bitmapHelper pbm nbits .findFirstClearAndSet

/-- The mask has its own bit and no other one. -/
theorem getLsbD_bitMask (index i : Nat) (inside : i < 32) :
    (bitMask index).getLsbD i = decide (i = index % 32) := by
  have bound : index % 32 < 32 := Nat.mod_lt _ (by decide)
  rw [bitMask, BitVec.getLsbD_shiftLeft, BitVec.getLsbD_one]
  rcases Nat.lt_trichotomy i (index % 32) with less | same | more
  · simp [less, inside, Nat.ne_of_lt less]
  · simp [same, bound]
  · have apart : i - index % 32 ≠ 0 := Nat.sub_ne_zero_of_lt more
    simp [inside, apart, Nat.ne_of_gt more]

/-- A bit of a word is tested by the mask of its number. -/
theorem and_bitMask_ne_zero (word : BitVec 32) (index : Nat) :
    word &&& bitMask index ≠ 0 ↔ word.getLsbD (index % 32) = true := by
  have inside : index % 32 < 32 := Nat.mod_lt _ (by decide)
  constructor
  · intro nonzero
    by_contra clear
    apply nonzero
    apply BitVec.eq_of_getLsbD_eq
    intro i bound
    rw [BitVec.getLsbD_and, getLsbD_bitMask index i bound]
    by_cases here : i = index % 32
    · rw [here, Bool.not_eq_true] at *
      simp [clear]
    · simp [here]
  · intro set zero
    have taken := congrArg (fun word => word.getLsbD (index % 32)) zero
    simp [BitVec.getLsbD_and, getLsbD_bitMask index _ inside, set] at taken

/-- A bit is tested in its word, at its place there. -/
theorem bitmapTest_eq (pbm : KvBitmap) (index : Nat) :
    bitmapTest pbm index = (pbm (index / 32)).getLsbD (index % 32) := by
  have tested := and_bitMask_ne_zero (pbm (index / 32)) index
  rw [bitmapTest, Bool.eq_iff_iff, decide_eq_true_iff]
  exact tested

/-- Distinct indices are in different words or are different bits of one word. -/
theorem index_apart {index other : Nat} (distinct : other ≠ index)
    (same : other / 32 = index / 32) :
    other % 32 ≠ index % 32 := by
  intro bits
  apply distinct
  rw [← Nat.div_add_mod other 32, ← Nat.div_add_mod index 32, same, bits]

/-- A set bit is set and no other bit is touched. -/
theorem bitmapTest_set (pbm : KvBitmap) (index tested : Nat) :
    bitmapTest (bitmapSet pbm index) tested =
      (decide (tested = index) || bitmapTest pbm tested) := by
  have inside : tested % 32 < 32 := Nat.mod_lt _ (by decide)
  rw [bitmapTest_eq, bitmapTest_eq, bitmapSet]
  by_cases word : tested / 32 = index / 32
  · rw [word, Function.update_self, BitVec.getLsbD_or, getLsbD_bitMask index _ inside]
    by_cases same : tested = index
    · simp [same]
    · simp [same, index_apart same word]
  · have distinct : tested ≠ index := fun same => word (same ▸ rfl)
    rw [Function.update_of_ne word]
    simp [distinct]

/-- A cleared bit is clear and no other bit is touched. -/
theorem bitmapTest_clear (pbm : KvBitmap) (index tested : Nat) :
    bitmapTest (bitmapClear pbm index) tested =
      (!decide (tested = index) && bitmapTest pbm tested) := by
  have inside : tested % 32 < 32 := Nat.mod_lt _ (by decide)
  rw [bitmapTest_eq, bitmapTest_eq, bitmapClear]
  by_cases word : tested / 32 = index / 32
  · rw [word, Function.update_self, BitVec.getLsbD_and, BitVec.getLsbD_not,
      getLsbD_bitMask index _ inside]
    by_cases same : tested = index
    · simp [same]
    · simp [same, index_apart same word, inside]
  · have distinct : tested ≠ index := fun same => word (same ▸ rfl)
    rw [Function.update_of_ne word]
    simp [distinct]

/-- No bit of the empty bitmap is set. -/
@[simp] theorem bitmapTest_zero (index : Nat) : bitmapTest .zero index = false := by
  simp [bitmapTest, KvBitmap.zero]

/-- A walk that looks for a bit to set ends with an index that was clear and is
now set, or leaves the bitmap as it was. -/
theorem bitmapHelperLoop_set (pbm : KvBitmap) (nbits : Nat) :
    ∀ fuel i j, match bitmapHelperLoop pbm nbits .findFirstClearAndSet fuel i j with
      | (some index, changed) =>
          index < nbits ∧ bitmapTest pbm index = false ∧ changed = bitmapSet pbm index
      | (none, changed) => changed = pbm := by
  intro fuel
  induction fuel with
  | zero => intro i j; rfl
  | succ fuel inductionHypothesis =>
      intro i j
      rw [bitmapHelperLoop]
      by_cases full : pbm i ≠ 0xffffffff
      · rw [if_pos full]
        cases found : (List.range 32).find? (bitmapStops .findFirstClearAndSet (pbm i)) with
        | none => exact inductionHypothesis (i + 1) 32
        | some bit =>
            have inside : bit < 32 := List.mem_range.mp (List.mem_of_find?_eq_some found)
            have stops := List.find?_some found
            have word : (i * 32 + bit) / 32 = i := by omega
            have mask : bitMask (i * 32 + bit) = bitMask bit := by
              rw [bitMask, bitMask]
              congr 1
              omega
            dsimp only
            by_cases bounded : i * 32 + bit < nbits
            · rw [if_pos bounded]
              refine ⟨bounded, ?_, ?_⟩
              · rw [bitmapTest, word, mask]
                simpa [bitmapStops] using stops
              · rw [if_pos rfl, bitmapSet, word, mask]
            · rw [if_neg bounded]
      · rw [if_neg full, if_neg (by decide)]
        exact inductionHypothesis (i + 1) j

/-- The index that `bitmap_ffa` returns was clear, is below the bound and is the
one bit set. -/
theorem bitmapFfa_some {pbm changed : KvBitmap} {nbits index : Nat}
    (found : bitmapFfa pbm nbits = (some index, changed)) :
    index < nbits ∧ bitmapTest pbm index = false ∧ changed = bitmapSet pbm index := by
  have walk := bitmapHelperLoop_set pbm nbits (round32 nbits / 32) 0 0
  rw [bitmapFfa, bitmapHelper] at found
  rwa [found] at walk

/-- A search without success leaves the bitmap. -/
theorem bitmapFfa_none {pbm changed : KvBitmap} {nbits : Nat}
    (full : bitmapFfa pbm nbits = (none, changed)) : changed = pbm := by
  have walk := bitmapHelperLoop_set pbm nbits (round32 nbits / 32) 0 0
  rw [bitmapFfa, bitmapHelper] at full
  rwa [full] at walk

/-- A walk that looks for a bit to set does not pass a clear bit: the first clear bit
of a word is not behind it. -/
theorem bitmapHelperLoop_finds {pbm : KvBitmap} {nbits index : Nat} (inside : index < nbits)
    (clear : bitmapTest pbm index = false) :
    ∀ fuel i j, i * 32 ≤ index → index < (i + fuel) * 32 →
      ∃ found, (bitmapHelperLoop pbm nbits .findFirstClearAndSet fuel i j).1 = some found := by
  intro fuel
  induction fuel with
  | zero =>
    intro i j lower upper
    omega
  | succ fuel inductionHypothesis =>
    intro i j lower upper
    have bit : index % 32 < 32 := Nat.mod_lt _ (by decide)
    rw [bitmapTest_eq] at clear
    rw [bitmapHelperLoop]
    by_cases full : pbm i ≠ 0xffffffff
    · rw [if_pos full]
      cases search : (List.range 32).find? (bitmapStops .findFirstClearAndSet (pbm i)) with
      | none =>
        have later : i * 32 + 32 ≤ index := by
          by_contra near
          have word : index / 32 = i := by omega
          rw [word] at clear
          have stops := List.find?_eq_none.mp search (index % 32) (List.mem_range.mpr bit)
          have set := (and_bitMask_ne_zero (pbm i) (index % 32)).mp (by
            simpa [bitmapStops] using stops)
          rw [Nat.mod_mod, clear] at set
          cases set
        exact inductionHypothesis (i + 1) 32 (by omega) (by omega)
      | some first =>
        have firstInside : first < 32 := List.mem_range.mp (List.mem_of_find?_eq_some search)
        have notBehind : i * 32 + first ≤ index := by
          by_contra behind
          have word : index / 32 = i := by omega
          rw [word] at clear
          obtain ⟨_, earlier⟩ := List.find?_range_eq_some.mp search
          have notStopped := earlier.2 (index % 32) (by omega)
          have set := (and_bitMask_ne_zero (pbm i) (index % 32)).mp (by
            simpa [bitmapStops] using notStopped)
          rw [Nat.mod_mod, clear] at set
          cases set
        dsimp only
        rw [if_pos (by omega)]
        exact ⟨_, rfl⟩
    · rw [if_neg full, if_neg (by decide)]
      have later : i * 32 + 32 ≤ index := by
        by_contra near
        have word : index / 32 = i := by omega
        rw [word, not_not.mp full] at clear
        have ones : (0xffffffff : BitVec 32) = BitVec.allOnes 32 := by decide
        rw [ones, BitVec.getLsbD_allOnes] at clear
        simp [bit] at clear
      exact inductionHypothesis (i + 1) j (by omega) (by omega)

/-- `bitmap_ffa` finds a bit when there is a clear one below the bound. -/
theorem bitmapFfa_of_clear {pbm : KvBitmap} {nbits index : Nat} (inside : index < nbits)
    (clear : bitmapTest pbm index = false) : ∃ found, (bitmapFfa pbm nbits).1 = some found :=
  bitmapHelperLoop_finds inside clear (round32 nbits / 32) 0 0 (by omega) (by
    unfold round32
    omega)

/-- The set bits below a bound. -/
def countBits (pbm : KvBitmap) (nbits : Nat) : Nat :=
  ((Finset.range nbits).filter fun i => bitmapTest pbm i = true).card

/-- No more bits are set below a bound than there are. -/
theorem countBits_le (pbm : KvBitmap) (nbits : Nat) : countBits pbm nbits ≤ nbits := by
  have filtered := Finset.card_filter_le (Finset.range nbits) fun i => bitmapTest pbm i = true
  rwa [Finset.card_range] at filtered

/-- Setting a clear bit counts one more. -/
theorem countBits_set {pbm : KvBitmap} {nbits index : Nat} (inside : index < nbits)
    (clear : bitmapTest pbm index = false) :
    countBits (bitmapSet pbm index) nbits = countBits pbm nbits + 1 := by
  have grown : (Finset.range nbits).filter (fun i => bitmapTest (bitmapSet pbm index) i = true) =
      insert index ((Finset.range nbits).filter fun i => bitmapTest pbm i = true) := by
    ext i
    by_cases same : i = index
    · simp [same, inside, bitmapTest_set]
    · simp [same, bitmapTest_set]
  rw [countBits, grown, Finset.card_insert_of_notMem (by simp [clear]), countBits]

/-- Clearing a set bit counts one less. -/
theorem countBits_clear {pbm : KvBitmap} {nbits index : Nat} (inside : index < nbits)
    (set : bitmapTest pbm index = true) :
    countBits (bitmapClear pbm index) nbits + 1 = countBits pbm nbits := by
  have restored : countBits (bitmapSet (bitmapClear pbm index) index) nbits =
      countBits pbm nbits := by
    unfold countBits
    congr 2
    funext i
    by_cases same : i = index
    · simp [same, bitmapTest_set, set]
    · simp [same, bitmapTest_set, bitmapTest_clear]
  rw [← restored, countBits_set inside (by simp [bitmapTest_clear])]

end Nvmkv
