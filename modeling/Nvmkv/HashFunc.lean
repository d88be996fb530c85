import Mathlib.Tactic.NormNum
import Nvmkv.Common

/-!
# Key hashing and collision probing

`kv_hash_func.cpp` with the function and the probing that the store selects:
FNV-1a and sequential probing. Hash values are numbers below `2 ^ 64` and every
operation that the code performs in 64 bits is reduced where it can wrap.

A key hash is folded to the requested number of bits and, when asked for,
shifted to the top of the address space of `alignmentAddr` bits. A probe adds a
multiple of the shifted unit and reduces the sum; the modulus it reduces by is
the one the code computes from the shift.
-/

namespace Nvmkv

/-- The offset basis of the hash. -/
def mFnvBasis : Nat := 14695981039346656037

/-- Its prime. -/
def mFnvPrime : Nat := 1099511628211

/-- Shorter hashes are folded in another way (`M_TINY_HASH_LEN`). -/
def mTinyHashLen : Nat := 32

/-- The bytes of a pool id as they lie in memory. -/
def poolIdBytes (poolId : UInt32) : List UInt8 :=
  (List.range 4).map fun i => UInt8.ofNat (poolId.toNat / 2 ^ (8 * i))

/-- The two settings of a hash function object that its results depend on. -/
structure NvmKvHashFunc where
  alignmentAddr : Nat
  sliceAddr : Nat

namespace NvmKvHashFunc

variable (hashFunc : NvmKvHashFunc)

/-- Mix one byte into the hash. -/
def fnvStep (h : Nat) (byte : UInt8) : Nat := (h ^^^ byte.toNat) * mFnvPrime % 2 ^ 64

/-- FNV-1a over the key and, for any pool but 0, the pool id. A hash below the
slice address is moved up by it. -/
def fnv1a (key : List UInt8) (poolId : UInt32) : Nat :=
  let h := key.foldl fnvStep mFnvBasis
  let h := if poolId ≠ 0 then (poolIdBytes poolId).foldl fnvStep h else h
  if h < hashFunc.sliceAddr then (h + hashFunc.sliceAddr) % 2 ^ 64 else h

/-- The hash of a key, folded to `hashLen` bits and aligned on demand. -/
def keyHash (key : List UInt8) (poolId : UInt32) (hashLen : Nat) (align : Bool) : Nat :=
  if key.length = 0 ∨ hashLen = 0 then
    0
  else
    let hash := hashFunc.fnv1a key poolId
    let hash :=
      if mTinyHashLen < hashLen then
        (hash >>> hashLen) ^^^ (hash &&& (2 ^ hashLen - 1))
      else
        ((hash >>> hashLen) ^^^ hash) &&& (2 ^ hashLen - 1)
    if align then (hash <<< (hashFunc.alignmentAddr - hashLen)) % 2 ^ 64 else hash

/-- The next address after `ntimes` collisions. -/
def sequentialProbe (prevHash ntimes alignLeft : Nat) : Nat :=
  (prevHash + (ntimes <<< alignLeft) % 2 ^ 64) % 2 ^ 64 %
    2 ^ (hashFunc.alignmentAddr - alignLeft)

/-- Collision resolution for a key whose first hash was `prevHash`. -/
def resolveColl (key : List UInt8) (prevHash ntimes hashLen : Nat) (align : Bool) : Nat :=
  if key.length = 0 ∨ hashLen = 0 then
    0
  else
    let alignLeft := if align then hashFunc.alignmentAddr - hashLen else 0
    hashFunc.sequentialProbe prevHash ntimes alignLeft

variable {hashFunc}

/-- A step of the hash stays in 64 bits. -/
theorem fnvStep_lt (h : Nat) (byte : UInt8) : fnvStep h byte < 2 ^ 64 :=
  Nat.mod_lt _ (by norm_num)

/-- Mixing bytes into a 64-bit hash leaves a 64-bit hash. -/
theorem foldl_fnvStep_lt {h : Nat} (bounded : h < 2 ^ 64) (bytes : List UInt8) :
    bytes.foldl fnvStep h < 2 ^ 64 := by
  induction bytes generalizing h with
  | nil => exact bounded
  | cons byte rest inductionHypothesis => exact inductionHypothesis (fnvStep_lt h byte)

/-- So does the whole hash. -/
theorem fnv1a_lt (key : List UInt8) (poolId : UInt32) : hashFunc.fnv1a key poolId < 2 ^ 64 := by
  have basis : mFnvBasis < 2 ^ 64 := by norm_num [mFnvBasis]
  have keyed := foldl_fnvStep_lt basis key
  have pooled := foldl_fnvStep_lt keyed (poolIdBytes poolId)
  have wrapped : ∀ h, (h + hashFunc.sliceAddr) % 2 ^ 64 < 2 ^ 64 :=
    fun h => Nat.mod_lt _ (by norm_num)
  simp only [fnv1a]
  split <;> split <;> first | exact wrapped _ | assumption

/-- Both ways of folding a 64-bit hash give a number of `hashLen` bits: above 32
bits the shifted hash has fewer than 32 bits itself. -/
theorem keyHash_lt (key : List UInt8) (poolId : UInt32) (hashLen : Nat) :
    hashFunc.keyHash key poolId hashLen false < 2 ^ hashLen := by
  have positive : 0 < 2 ^ hashLen := Nat.two_pow_pos hashLen
  have masked : ∀ h, h &&& (2 ^ hashLen - 1) < 2 ^ hashLen := by
    intro h
    rw [Nat.and_two_pow_sub_one_eq_mod]
    exact Nat.mod_lt _ positive
  have shifted : mTinyHashLen < hashLen →
      hashFunc.fnv1a key poolId >>> hashLen < 2 ^ hashLen := by
    intro long
    rw [Nat.shiftRight_eq_div_pow]
    apply Nat.div_lt_of_lt_mul
    calc hashFunc.fnv1a key poolId < 2 ^ 64 := fnv1a_lt key poolId
      _ ≤ 2 ^ (hashLen + hashLen) := by
        apply Nat.pow_le_pow_right (by norm_num)
        have : mTinyHashLen = 32 := rfl
        omega
      _ = 2 ^ hashLen * 2 ^ hashLen := Nat.pow_add _ _ _
  unfold keyHash
  simp only [Bool.false_eq_true, if_false]
  split
  · exact positive
  · split
    · rename_i long
      exact Nat.xor_lt_two_pow (shifted long) (masked _)
    · exact masked _

/-- An aligned hash is the folded one, shifted to the top of the addresses. -/
theorem keyHash_align (key : List UInt8) (poolId : UInt32) {hashLen : Nat}
    (fits : hashLen ≤ hashFunc.alignmentAddr) (short : hashFunc.alignmentAddr < 64) :
    hashFunc.keyHash key poolId hashLen true =
      hashFunc.keyHash key poolId hashLen false * 2 ^ (hashFunc.alignmentAddr - hashLen) := by
  have bounded : hashFunc.keyHash key poolId hashLen false < 2 ^ hashLen := keyHash_lt ..
  have noWrap : hashFunc.keyHash key poolId hashLen false *
      2 ^ (hashFunc.alignmentAddr - hashLen) < 2 ^ 64 := by
    calc _ < 2 ^ hashLen * 2 ^ (hashFunc.alignmentAddr - hashLen) :=
          Nat.mul_lt_mul_of_pos_right bounded (Nat.two_pow_pos _)
      _ = 2 ^ hashFunc.alignmentAddr := by
          rw [← Nat.pow_add]
          congr 1
          omega
      _ ≤ 2 ^ 64 := Nat.pow_le_pow_right (by norm_num) (by omega)
  by_cases trivial : key.length = 0 ∨ hashLen = 0
  · simp only [keyHash, if_pos trivial, Nat.zero_mul]
  · have aligned : hashFunc.keyHash key poolId hashLen true =
        (hashFunc.keyHash key poolId hashLen false <<<
          (hashFunc.alignmentAddr - hashLen)) % 2 ^ 64 := by
      simp only [keyHash, if_neg trivial, if_true, Bool.false_eq_true, if_false]
    rw [aligned, Nat.shiftLeft_eq, Nat.mod_eq_of_lt noWrap]

end NvmKvHashFunc

end Nvmkv
