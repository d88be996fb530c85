import Mathlib.Data.List.Nodup
import Mathlib.Data.Nat.ModEq
import Nvmkv.ProbeAddresses

/-!
# The sequence of slots that a key is looked for in

Probing goes through the slots one after the other only as far as the sum stays
below the modulus. That one is `2 ^ (keyBits - valueBits)` slots, because the sum
is already shifted by the value bits when it is reduced by `2 ^ keyBits`. A
sequence over all `2 ^ keyBits` slots would wrap around at their end instead.

The two sequences agree on a key when none of its eight sums reaches the smaller
modulus. Besides the keys that start early enough this is the key that starts in
the last slot of all: its first sum is slot 0 under either modulus.
-/

namespace Nvmkv

namespace NvmKvStore

variable {store : NvmKvStore}

/-- The address tried after `n` collisions of a key that starts in a slot, before
the pool's offset is added. -/
def probeFrom (store : NvmKvStore) (key : List UInt8) (slot n : Nat) : Nat :=
  if n = 0 then slot * 2 ^ store.valueBits
  else store.hashFunc.resolveColl key (slot * 2 ^ store.valueBits) n store.keyBits true

/-- Collision resolution goes through the slots one by one and wraps around at the
last one, and the positions tried for the key are different slots. -/
def ProbesLinearly (store : NvmKvStore) (key : List UInt8) (slot : Nat) : Prop :=
  (∀ n, 1 ≤ n → n ≤ maxCollision →
    store.hashFunc.resolveColl key (slot * 2 ^ store.valueBits) n store.keyBits true =
      (slot + n) % 2 ^ store.keyBits * 2 ^ store.valueBits) ∧
  ((List.range maxCollision).map fun n =>
    store.probeFrom key slot n / 2 ^ store.valueBits).Nodup

/-- All sums of a key stay below the modulus of the probe. -/
def BelowModulus (store : NvmKvStore) (slot : Nat) : Prop :=
  slot + maxCollision < 2 ^ (store.keyBits - store.valueBits) ∨
    slot + 1 = 2 ^ store.keyBits ∧ maxCollision ≤ 2 ^ (store.keyBits - store.valueBits)

/-- The modulus of the probe is at most half of the slots. -/
theorem modulus_le_half : 2 * 2 ^ (store.keyBits - store.valueBits) ≤ 2 ^ store.keyBits := by
  obtain ⟨_, lower, _⟩ := store.sector_value_bits
  have positive := store.keyBits_positive
  calc 2 * 2 ^ (store.keyBits - store.valueBits) = 2 ^ (store.keyBits - store.valueBits + 1) := by
        rw [Nat.pow_succ, Nat.mul_comm]
    _ ≤ 2 ^ store.keyBits := Nat.pow_le_pow_right (by norm_num) (by omega)

/-- A probe lands where a sequence over all slots would when the sum does not reach
the modulus. -/
theorem resolveColl_linear_iff {key : List UInt8} {slot n : Nat} (nonempty : key ≠ [])
    (inside : slot < 2 ^ store.keyBits) (probed : n ≤ maxCollision) :
    store.hashFunc.resolveColl key (slot * 2 ^ store.valueBits) n store.keyBits true =
        (slot + n) % 2 ^ store.keyBits * 2 ^ store.valueBits ↔
      (slot + n) % 2 ^ store.keyBits < 2 ^ (store.keyBits - store.valueBits) := by
  have fewer : 2 ^ (store.keyBits - store.valueBits) ∣ 2 ^ store.keyBits :=
    Nat.pow_dvd_pow 2 (Nat.sub_le _ _)
  rw [resolveColl_slot nonempty inside probed, Nat.mul_left_inj (Nat.two_pow_pos _).ne',
    ← Nat.mod_mod_of_dvd (slot + n) fewer]
  constructor
  · intro same
    rw [← same]
    exact Nat.mod_lt _ (Nat.two_pow_pos _)
  · exact Nat.mod_eq_of_lt

/-- With sixteen slots or more, the sums of a key all stay below the modulus just when
the key starts early enough or in the last slot. The sum before a wrap-around to slot 0
is the last slot itself, so that only its own successor may wrap. -/
theorem sums_below_iff {slot period modulus : Nat} (inside : slot < period) (many : 16 ≤ period)
    (half : 2 * modulus ≤ period) :
    (∀ n, 1 ≤ n → n ≤ maxCollision → (slot + n) % period < modulus) ↔
      slot + maxCollision < modulus ∨ slot + 1 = period ∧ maxCollision ≤ modulus := by
  unfold maxCollision
  constructor
  · intro below
    by_cases wraps : slot + 8 < period
    · left
      have last := below 8 (by omega) le_rfl
      rwa [Nat.mod_eq_of_lt wraps] at last
    · right
      have final : slot + 1 = period := by
        by_contra earlier
        have before := below (period - 1 - slot) (by omega) (by omega)
        rw [show slot + (period - 1 - slot) = period - 1 by omega,
          Nat.mod_eq_of_lt (by omega)] at before
        omega
      have last := below 8 (by omega) le_rfl
      rw [show slot + 8 = 7 + period by omega, Nat.add_mod_right,
        Nat.mod_eq_of_lt (by omega)] at last
      exact ⟨final, last⟩
  · rintro (early | ⟨final, enough⟩) n one few
    · rw [Nat.mod_eq_of_lt (by omega)]
      omega
    · rw [show slot + n = n - 1 + period by omega, Nat.add_mod_right,
        Nat.mod_eq_of_lt (by omega)]
      omega

/-- Successive slots are different as long as they do not go around once. -/
theorem successive_nodup {slot period : Nat} (many : 16 ≤ period) :
    ((List.range maxCollision).map fun n => (slot + n) % period).Nodup := by
  apply List.Nodup.map_on _ List.nodup_range
  intro first firstIn second secondIn same
  rw [List.mem_range] at firstIn secondIn
  unfold maxCollision at firstIn secondIn
  have congruent : Nat.ModEq period first second := Nat.ModEq.add_left_cancel' slot same
  rwa [Nat.ModEq, Nat.mod_eq_of_lt (by omega), Nat.mod_eq_of_lt (by omega)] at congruent

/-- Probing goes through the slots one by one just for the keys whose sums stay below
the modulus of the probe. -/
theorem probes_linearly_iff (store : NvmKvStore) (key : List UInt8) (slot : Nat)
    (many : 4 ≤ store.keyBits) (nonempty : key ≠ []) (inside : slot < 2 ^ store.keyBits) :
    store.ProbesLinearly key slot ↔ store.BelowModulus slot := by
  have sixteen : 16 ≤ 2 ^ store.keyBits :=
    calc 16 = 2 ^ 4 := by norm_num
      _ ≤ 2 ^ store.keyBits := Nat.pow_le_pow_right (by norm_num) many
  rw [BelowModulus, ← sums_below_iff inside sixteen modulus_le_half]
  constructor
  · rintro ⟨linear, _⟩ n one few
    exact (resolveColl_linear_iff nonempty inside few).mp (linear n one few)
  · intro below
    have linear : ∀ n, 1 ≤ n → n ≤ maxCollision →
        store.hashFunc.resolveColl key (slot * 2 ^ store.valueBits) n store.keyBits true =
          (slot + n) % 2 ^ store.keyBits * 2 ^ store.valueBits := by
      intro n one few
      exact (resolveColl_linear_iff nonempty inside few).mpr (below n one few)
    have positions : ∀ n ∈ List.range maxCollision,
        store.probeFrom key slot n / 2 ^ store.valueBits = (slot + n) % 2 ^ store.keyBits := by
      intro n member
      have few := List.mem_range.mp member
      unfold probeFrom
      split
      · rename_i first
        rw [first, Nat.add_zero, Nat.mod_eq_of_lt inside, Nat.mul_div_cancel _ (Nat.two_pow_pos _)]
      · rw [linear n (by omega) (by omega), Nat.mul_div_cancel _ (Nat.two_pow_pos _)]
    refine ⟨linear, ?_⟩
    rw [List.map_congr_left positions]
    exact successive_nodup sixteen

/-- The key `a` starting in slot 100 of a store with 2 ^ 19 slots. -/
theorem probes_linearly_early : terabyteStore.ProbesLinearly [97] 100 :=
  (probes_linearly_iff terabyteStore [97] 100 (by decide +kernel) (by decide)
    (by decide +kernel)).mpr (Or.inl (by decide +kernel))

/-- From slot 128 of the same store the first collision leads to slot 1. -/
theorem probing_leaves_the_line :
    terabyteStore.hashFunc.resolveColl [97] (128 * 2 ^ terabyteStore.valueBits) 1
        terabyteStore.keyBits true = 1 * 2 ^ terabyteStore.valueBits ∧
      ¬∀ (store : NvmKvStore) (key : List UInt8) (slot : Nat), 4 ≤ store.keyBits → key ≠ [] →
        slot < 2 ^ store.keyBits → store.ProbesLinearly key slot := by
  have address : terabyteStore.hashFunc.resolveColl [97] (128 * 2 ^ terabyteStore.valueBits) 1
      terabyteStore.keyBits true = 1 * 2 ^ terabyteStore.valueBits := by decide +kernel
  refine ⟨address, ?_⟩
  intro linear
  have first := (linear terabyteStore [97] 128 (by decide +kernel) (by decide)
    (by decide +kernel)).1 1 le_rfl (by decide)
  rw [address] at first
  exact absurd first (by decide +kernel)

end NvmKvStore

end Nvmkv
