import Mathlib.Data.Nat.Bitwise

/-!
# Byte regions

A region of memory is the function from an offset to the byte stored there.
Regions are copied into one another, compared as lists of bytes, and carry
unsigned words of four bytes with the least significant byte first. The laws
say what a copy or a word write leaves at the offsets inside and outside of it;
with them a structure laid out at fixed offsets reads back as it was written.
-/

namespace Nvmkv

/-- The bytes from a base address on. -/
abbrev Region := Nat → UInt8

namespace Region

/-- Copy the first `length` bytes of the source to the given offset. -/
def copy (region : Region) (offset length : Nat) (source : Region) : Region :=
  fun i => if offset ≤ i ∧ i < offset + length then source (i - offset) else region i

/-- The region that starts at an offset of another one. -/
def drop (region : Region) (offset : Nat) : Region := fun i => region (offset + i)

/-- The bytes of a list, continued by zeros. -/
def ofList (bytes : List UInt8) : Region := fun i => bytes.getD i 0

/-- The bytes at `length` consecutive offsets. -/
def slice (region : Region) (offset length : Nat) : List UInt8 :=
  (List.range length).map fun i => region (offset + i)

/-- The four-byte word stored at an offset, least significant byte first. -/
def word (region : Region) (offset : Nat) : Nat :=
  (region offset).toNat + 2 ^ 8 * (region (offset + 1)).toNat +
    2 ^ 16 * (region (offset + 2)).toNat + 2 ^ 24 * (region (offset + 3)).toNat

/-- Store a number modulo `2 ^ 32` as a four-byte word. -/
def setWord (region : Region) (offset value : Nat) : Region :=
  region.copy offset 4 fun i => UInt8.ofNat (value / 2 ^ (8 * i))

/-- The bytes copied are those of the source. -/
theorem copy_inside (region source : Region) {offset length i : Nat}
    (inside : offset ≤ i ∧ i < offset + length) :
    region.copy offset length source i = source (i - offset) := if_pos inside

/-- The others stay. -/
theorem copy_outside (region source : Region) {offset length i : Nat}
    (outside : i < offset ∨ offset + length ≤ i) :
    region.copy offset length source i = region i := by
  apply if_neg
  omega

/-- Nothing dropped is the region itself. -/
@[simp] theorem drop_zero (region : Region) : region.drop 0 = region := by
  funext i
  rw [drop, Nat.zero_add]

/-- Bytes dropped twice are dropped together. -/
theorem drop_drop (region : Region) (first second : Nat) :
    (region.drop first).drop second = region.drop (first + second) := by
  funext i
  simp only [drop, Nat.add_assoc]

/-- A slice has the length asked for. -/
@[simp] theorem slice_length (region : Region) (offset length : Nat) :
    (region.slice offset length).length = length := by
  simp [slice]

/-- Slices agree when the regions agree on the offsets they take. -/
theorem slice_congr {left right : Region} {offset length : Nat}
    (same : ∀ i, offset ≤ i → i < offset + length → left i = right i) :
    left.slice offset length = right.slice offset length := by
  apply List.map_congr_left
  intro i member
  have bound : i < length := List.mem_range.mp member
  exact same (offset + i) (by omega) (by omega)

/-- Equal slices have equal bytes. -/
theorem eq_of_slice_eq {left right : Region} {offset length i : Nat}
    (same : left.slice offset length = right.slice offset length)
    (inside : offset ≤ i ∧ i < offset + length) : left i = right i := by
  have pointwise := (List.map_inj_left).mp same (i - offset) (List.mem_range.mpr (by omega))
  have index : offset + (i - offset) = i := by omega
  simpa only [index] using pointwise

/-- The bytes of a list, copied to an offset, are the slice read back there. -/
theorem slice_copy_ofList (region : Region) (offset : Nat) (bytes : List UInt8) :
    (region.copy offset bytes.length (ofList bytes)).slice offset bytes.length = bytes := by
  apply List.ext_getElem (by simp)
  intro i left right
  have bound : i < bytes.length := right
  simp only [slice, List.getElem_map, List.getElem_range]
  rw [copy_inside _ _ (by omega)]
  simp [ofList, bound]

/-- A word depends on its four bytes. -/
theorem word_congr {left right : Region} {offset : Nat}
    (same : ∀ i, offset ≤ i → i < offset + 4 → left i = right i) :
    left.word offset = right.word offset := by
  simp only [word]
  rw [same offset (by omega) (by omega), same (offset + 1) (by omega) (by omega),
    same (offset + 2) (by omega) (by omega), same (offset + 3) (by omega) (by omega)]

/-- It is a number of 32 bits. -/
theorem word_lt (region : Region) (offset : Nat) : region.word offset < 2 ^ 32 := by
  have byte : ∀ i, (region i).toNat < 2 ^ 8 := fun i => (region i).toNat_lt
  have b0 := byte offset
  have b1 := byte (offset + 1)
  have b2 := byte (offset + 2)
  have b3 := byte (offset + 3)
  simp only [word]
  omega

/-- A copy elsewhere does not change a word. -/
theorem word_copy_disjoint (region source : Region) {offset length start : Nat}
    (disjoint : start + 4 ≤ offset ∨ offset + length ≤ start) :
    (region.copy offset length source).word start = region.word start := by
  apply word_congr
  intro i lower upper
  exact copy_outside region source (by omega)

/-- A stored word reads back modulo `2 ^ 32`: its four bytes are the four
lowest base-256 digits of the value. -/
@[simp] theorem word_setWord_same (region : Region) (offset value : Nat) :
    (region.setWord offset value).word offset = value % 2 ^ 32 := by
  have digit : ∀ j, j < 4 →
      (region.setWord offset value (offset + j)).toNat = value / 2 ^ (8 * j) % 2 ^ 8 := by
    intro j bound
    rw [setWord, copy_inside _ _ (by omega), Nat.add_sub_cancel_left, UInt8.toNat_ofNat']
  have d0 := digit 0 (by omega)
  have d1 := digit 1 (by omega)
  have d2 := digit 2 (by omega)
  have d3 := digit 3 (by omega)
  simp only [Nat.add_zero, Nat.mul_zero, Nat.pow_zero, Nat.div_one] at d0
  simp only [word]
  rw [d0, d1, d2, d3]
  omega

/-- A word write elsewhere does not change a word. -/
theorem word_setWord_disjoint (region : Region) {offset start : Nat} (value : Nat)
    (disjoint : start + 4 ≤ offset ∨ offset + 4 ≤ start) :
    (region.setWord offset value).word start = region.word start :=
  word_copy_disjoint region _ disjoint

end Region

end Nvmkv
