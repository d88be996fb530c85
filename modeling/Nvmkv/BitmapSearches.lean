import Mathlib.Order.Bounds.Basic
import Nvmkv.PoolMutex

/-!
# What the bitmap searches find

`bitmap_ffs` and `bitmap_ffa` at the widths of their arguments: the number of bits has
32 bits and rounding it up to whole words can wrap, and the index comes back as an `int`.

The walk over the words ends at the first bit that is looked for. For a set bit there is
one exception: a word of ones ends the walk with the bit number left over from the word
before, which is 32 once a word without a set bit was passed. The first set bit is then
missed by a whole word. A search for a bit to allocate has no such case.

One lemma follows the walk of all three searches from any word on; the conditions are read
off it.
-/

namespace Nvmkv

/-- `round32` in 32 bits. -/
def round32Word (value : UInt32) : UInt32 := (value + 31) &&& ~~~31

/-- The words of so many bits, in 32 bits (`bits_per_uint32`). -/
def bitsPerUint32 (value : UInt32) : UInt32 := value >>> 5

/-- `BM_FULL`. -/
def bmFull : Int32 := -1

/-- `bitmap_helper` with a number of bits and an index of 32 bits. The index of the walk
does not wrap: the words are at most those of `2 ^ 32 - 32` bits. -/
def bitmapHelperInt (pbm : KvBitmap) (nbits : UInt32) (action : BitmapAction) :
    Int32 × KvBitmap :=
  let (found, pbm) := bitmapHelperLoop pbm nbits.toNat action
    (bitsPerUint32 (round32Word nbits)).toNat 0 0
  (match found with
    | some idx => Int32.ofNat idx
    | none => bmFull, pbm)

/-- `bitmap_ffs`. -/
def bitmapFfsInt (pbm : KvBitmap) (nbits : UInt32) : Int32 :=
  (bitmapHelperInt pbm nbits .findFirstSet).1

/-- `bitmap_ffa`. -/
def bitmapFfaInt (pbm : KvBitmap) (nbits : UInt32) : Int32 × KvBitmap :=
  bitmapHelperInt pbm nbits .findFirstClearAndSet

/-- The value of the bits that a search looks for. -/
def BitmapAction.sought (action : BitmapAction) : Bool := action = .findFirstSet

/-- The indices below a bound whose bits have a value. -/
def bitsWith (pbm : KvBitmap) (value : Bool) (nbits : Nat) : Set Nat :=
  {index | index < nbits ∧ bitmapTest pbm index = value}

/-- The index that a search computes when the walk, at word `i` with the bit number `j`,
comes to its first bit. -/
def bitmapLands (pbm : KvBitmap) (action : BitmapAction) (i j first : Nat) : Nat :=
  if action = .findFirstSet ∧ pbm (first / 32) = 0xffffffff then
    first + if first / 32 = i then j else 32
  else first

section Walk

variable {pbm : KvBitmap} {nbits : Nat} {action : BitmapAction}

/-- A bit ends the walk over a word when it has the value looked for. -/
theorem bitmapStops_iff {i bit : Nat} (inside : bit < 32) :
    bitmapStops action (pbm i) bit = true ↔ bitmapTest pbm (i * 32 + bit) = action.sought := by
  have word : (i * 32 + bit) / 32 = i := by omega
  have number : (i * 32 + bit) % 32 = bit := by omega
  have tested := and_bitMask_ne_zero (pbm i) bit
  rw [Nat.mod_eq_of_lt inside] at tested
  rw [bitmapTest_eq, word, number]
  cases action with
  | findFirstSet => simpa [bitmapStops, BitmapAction.sought] using tested
  | findFirstClear => simpa [bitmapStops, BitmapAction.sought] using not_iff_not.mpr tested
  | findFirstClearAndSet => simpa [bitmapStops, BitmapAction.sought] using not_iff_not.mpr tested

/-- Every bit of a word of ones is set. -/
theorem bitmapTest_full {index : Nat} (full : pbm (index / 32) = 0xffffffff) :
    bitmapTest pbm index = true := by
  have inside : index % 32 < 32 := Nat.mod_lt _ (by decide)
  have ones : (0xffffffff : BitVec 32) = BitVec.allOnes 32 := by decide
  rw [bitmapTest_eq, full, ones, BitVec.getLsbD_allOnes, decide_eq_true inside]

/-- The walk from a word on, when the first bit looked for is among the words left: it ends there.
Induction is on the words left. A word that is passed leaves the bit number 32, and with it a word
of ones ends the search for a set bit. -/
theorem bitmapHelperLoop_of_first {first : Nat} (found : bitmapTest pbm first = action.sought) :
    ∀ fuel i j, i * 32 ≤ first → first < (i + fuel) * 32 →
      (∀ index, i * 32 ≤ index → index < first → bitmapTest pbm index ≠ action.sought) →
      bitmapHelperLoop pbm nbits action fuel i j =
        (if bitmapLands pbm action i j first < nbits then some (bitmapLands pbm action i j first)
          else none,
        if first < nbits ∧ action = .findFirstClearAndSet then bitmapSet pbm first else pbm) := by
  intro fuel
  induction fuel with
  | zero =>
    intro i j lower upper
    omega
  | succ fuel inductionHypothesis =>
    intro i j lower upper passed
    rw [bitmapHelperLoop]
    by_cases full : pbm i ≠ 0xffffffff
    · rw [if_pos full]
      cases search : (List.range 32).find? (bitmapStops action (pbm i)) with
      | none =>
        have later : first / 32 ≠ i := by
          intro here
          have inside : first % 32 < 32 := Nat.mod_lt _ (by decide)
          have stops := List.find?_range_eq_none.mp search (first % 32) inside
          have index : i * 32 + first % 32 = first := by omega
          rw [Bool.not_eq_true', ← Bool.not_eq_true, bitmapStops_iff inside, index] at stops
          exact stops found
        have lands : bitmapLands pbm action (i + 1) 32 first =
            bitmapLands pbm action i j first := by
          rw [bitmapLands, bitmapLands, if_neg later, ite_self]
        dsimp only
        rw [inductionHypothesis (i + 1) 32 (by omega) (by omega)
          fun index above below => passed index (by omega) below, lands]
      | some bit =>
        obtain ⟨stops, member, earlier⟩ := List.find?_range_eq_some.mp search
        have inside : bit < 32 := List.mem_range.mp member
        have here : i * 32 + bit = first := by
          rw [bitmapStops_iff inside] at stops
          rcases Nat.lt_trichotomy (i * 32 + bit) first with before | same | after
          · exact absurd stops (passed _ (by omega) before)
          · exact same
          · have stopped := earlier (first - i * 32) (by omega)
            have index : i * 32 + (first - i * 32) = first := by omega
            rw [Bool.not_eq_true', ← Bool.not_eq_true, bitmapStops_iff (by omega), index] at stopped
            exact absurd found stopped
        have word : first / 32 = i := by omega
        have mask : bitMask first = bitMask bit := by
          rw [bitMask, bitMask]
          congr 1
          omega
        have lands : bitmapLands pbm action i j first = first := by
          rw [bitmapLands, word, if_neg fun ones => full ones.2]
        dsimp only
        rw [here, lands, bitmapSet, word, mask]
        by_cases bounded : first < nbits
        · simp only [bounded, true_and, if_true]
        · simp only [bounded, false_and, if_false]
    · have ones : pbm i = 0xffffffff := not_not.mp full
      rw [if_neg full]
      by_cases set : action = .findFirstSet
      · subst set
        have here : first = i * 32 := by
          by_contra apart
          have word : i * 32 / 32 = i := by omega
          exact passed (i * 32) le_rfl (by omega) (bitmapTest_full (word.symm ▸ ones))
        have word : first / 32 = i := by omega
        have lands : bitmapLands pbm .findFirstSet i j first = i * 32 + j := by
          rw [bitmapLands, word, if_pos ⟨rfl, ones⟩, if_pos rfl, here]
        have other : ¬(first < nbits ∧ BitmapAction.findFirstSet = .findFirstClearAndSet) :=
          fun impossible => BitmapAction.noConfusion impossible.2
        rw [if_pos rfl, lands, if_neg other]
      · rw [if_neg set]
        have later : first / 32 ≠ i := by
          intro here
          have sought : action.sought = false := decide_eq_false set
          rw [sought, bitmapTest_full (here.symm ▸ ones)] at found
          exact Bool.noConfusion found
        have lands : ∀ i j, bitmapLands pbm action i j first = first := fun i j =>
          if_neg fun impossible => set impossible.1
        rw [inductionHypothesis (i + 1) j (by omega) (by omega)
          fun index above below => passed index (by omega) below, lands, lands]

/-- The walk finds nothing when no bit of the words left has the value looked for. -/
theorem bitmapHelperLoop_of_none :
    ∀ fuel i j, (∀ index, i * 32 ≤ index → index < (i + fuel) * 32 →
        bitmapTest pbm index ≠ action.sought) →
      bitmapHelperLoop pbm nbits action fuel i j = (none, pbm) := by
  intro fuel
  induction fuel with
  | zero => exact fun _ _ _ => rfl
  | succ fuel inductionHypothesis =>
    intro i j passed
    have further : ∀ j, bitmapHelperLoop pbm nbits action fuel (i + 1) j = (none, pbm) := fun j =>
      inductionHypothesis (i + 1) j fun index above below => passed index (by omega) (by omega)
    rw [bitmapHelperLoop]
    by_cases full : pbm i ≠ 0xffffffff
    · rw [if_pos full]
      have search : (List.range 32).find? (bitmapStops action (pbm i)) = none := by
        rw [List.find?_range_eq_none]
        intro bit inside
        rw [Bool.not_eq_true', ← Bool.not_eq_true, bitmapStops_iff inside]
        exact passed _ (by omega) (by omega)
      rw [search]
      exact further 32
    · have word : i * 32 / 32 = i := by omega
      have ones : bitmapTest pbm (i * 32) = true :=
        bitmapTest_full (word.symm ▸ not_not.mp full)
      have other : action ≠ .findFirstSet := by
        rintro rfl
        exact passed (i * 32) le_rfl (by omega) ones
      rw [if_neg full, if_neg other]
      exact further j

end Walk

/-- The words walked over: those of the bits, unless rounding up wraps to none. -/
theorem words_walked (nbits : UInt32) :
    (bitsPerUint32 (round32Word nbits)).toNat =
      if nbits.toNat ≤ 2 ^ 32 - 32 then (nbits.toNat + 31) / 32 else 0 := by
  have mask : (~~~31 : UInt32).toNat = 2 ^ 32 - 2 ^ 5 := by decide
  have shift : (5 : UInt32).toNat % 32 = 5 := by decide
  have round : (31 : UInt32).toNat = 31 := by decide
  have small := nbits.toNat_lt
  have wrapped : (nbits.toNat + 31) % 2 ^ 32 < 2 ^ 32 := Nat.mod_lt _ (by decide)
  rw [bitsPerUint32, UInt32.toNat_shiftRight, shift, round32Word, UInt32.toNat_and, mask,
    UInt32.toNat_add, round, @and_high_mask 32 _ 5 wrapped (by decide), Nat.shiftRight_eq_div_pow,
    Nat.mul_div_cancel _ (by decide)]
  split_ifs with fits <;> omega

section Searches

variable {pbm : KvBitmap} {nbits : UInt32} {action : BitmapAction}

/-- A walk over any number of words finds nothing when no bit below the bound has the value looked
for. A bit behind the bound ends the walk without success, too. -/
theorem bitmapHelperLoop_below {nbits : Nat}
    (absent : ∀ index < nbits, bitmapTest pbm index ≠ action.sought) (words : Nat) :
    bitmapHelperLoop pbm nbits action words 0 0 = (none, pbm) := by
  by_cases some : ∃ index, index < words * 32 ∧ bitmapTest pbm index = action.sought
  · obtain ⟨below, found⟩ := Nat.find_spec some
    have behind : nbits ≤ Nat.find some := Nat.le_of_not_lt fun before => absent _ before found
    have lands : Nat.find some ≤ bitmapLands pbm action 0 0 (Nat.find some) := by
      rw [bitmapLands]
      split
      · exact Nat.le_add_right _ _
      · exact le_rfl
    have walked := @bitmapHelperLoop_of_first pbm nbits action _ found words 0 0 (by omega)
      (by omega) fun index _ before same => Nat.find_min some before ⟨by omega, same⟩
    rw [if_neg (by omega), if_neg fun inside => by omega] at walked
    exact walked
  · exact bitmapHelperLoop_of_none words 0 0 fun index _ below same =>
      some ⟨index, by omega, same⟩

/-- Without a bit of the kind sought the search returns `BM_FULL` and changes nothing. -/
theorem bitmapHelperInt_none
    (absent : ∀ index < nbits.toNat, bitmapTest pbm index ≠ action.sought) :
    bitmapHelperInt pbm nbits action = (bmFull, pbm) := by
  rw [bitmapHelperInt, bitmapHelperLoop_below absent]

/-- With such a bit the search lands at the first one or where the walk leaves off there, as
long as the number of bits can be rounded up. -/
theorem bitmapHelperInt_first {first : Nat}
    (least : IsLeast (bitsWith pbm action.sought nbits.toNat) first) :
    bitmapHelperInt pbm nbits action =
      if nbits.toNat ≤ 2 ^ 32 - 32 then
        (if bitmapLands pbm action 0 0 first < nbits.toNat then
            Int32.ofNat (bitmapLands pbm action 0 0 first)
          else bmFull,
        if action = .findFirstClearAndSet then bitmapSet pbm first else pbm)
      else (bmFull, pbm) := by
  obtain ⟨⟨bounded, found⟩, minimal⟩ := least
  rw [bitmapHelperInt, words_walked]
  by_cases fits : nbits.toNat ≤ 2 ^ 32 - 32
  · have passed : ∀ index, 0 * 32 ≤ index → index < first →
        bitmapTest pbm index ≠ action.sought := by
      intro index _ before same
      have least := minimal ⟨by omega, same⟩
      omega
    rw [if_pos fits, if_pos fits,
      bitmapHelperLoop_of_first found _ 0 0 (by omega) (by omega) passed]
    simp only [bounded, true_and]
    split_ifs <;> rfl
  · rw [if_neg fits, if_neg fits, bitmapHelperLoop]

/-- An index returned is the one found when an `int` holds it. -/
theorem toInt_index {found first : Nat} (bounded : found < 2 ^ 32) :
    (Int32.ofNat found).toInt = first ↔ found = first ∧ first < 2 ^ 31 := by
  have size : Int32.size = 2 ^ 32 := rfl
  rw [Int32.toInt_ofNat', Int.bmod_def, size]
  split_ifs <;> omega

/-- No index of a bit is returned as that there is none. -/
theorem index_ne_full {found : Nat} (below : found < 2 ^ 32 - 1) : Int32.ofNat found ≠ bmFull := by
  intro same
  have value := congrArg Int32.toInt same
  have full : bmFull.toInt = -1 := rfl
  have size : Int32.size = 2 ^ 32 := rfl
  rw [Int32.toInt_ofNat', Int.bmod_def, full, size] at value
  split_ifs at value <;> omega

/-- Below a bound some bit has a value, and then there is a first one, or none has. -/
theorem bitsWith_cases (pbm : KvBitmap) (value : Bool) (nbits : Nat) :
    (∃ first, IsLeast (bitsWith pbm value nbits) first) ∨ bitsWith pbm value nbits = ∅ := by
  rcases (bitsWith pbm value nbits).eq_empty_or_nonempty with none | some
  · exact Or.inr none
  · classical
    exact Or.inl ⟨Nat.find some, Nat.find_spec some, fun _ => Nat.find_min' some⟩

end Searches

section FirstSet

variable {pbm : KvBitmap} {nbits : UInt32}

/-- `bitmap_ffs` returns the first set bit, and that there is none just when there is none. -/
def FindsFirstSet (pbm : KvBitmap) (nbits : UInt32) : Prop :=
  (∀ first, IsLeast (bitsWith pbm true nbits.toNat) first →
      (bitmapFfsInt pbm nbits).toInt = first) ∧
    (bitmapFfsInt pbm nbits = bmFull ↔ bitsWith pbm true nbits.toNat = ∅)

/-- The first set bit is in the first word or in a word that has a clear bit too, an `int` holds
its index, and the number of bits can be rounded up. -/
def FirstSetReached (pbm : KvBitmap) (nbits : UInt32) : Prop :=
  ∀ first, IsLeast (bitsWith pbm true nbits.toNat) first →
    nbits.toNat ≤ 2 ^ 32 - 32 ∧ first < 2 ^ 31 ∧ (first < 32 ∨ pbm (first / 32) ≠ 0xffffffff)

/-- Where a search for a set bit lands. -/
theorem bitmapLands_set (pbm : KvBitmap) (first : Nat) :
    bitmapLands pbm .findFirstSet 0 0 first =
      if first < 32 ∨ pbm (first / 32) ≠ 0xffffffff then first else first + 32 := by
  rw [bitmapLands]
  by_cases ones : pbm (first / 32) = 0xffffffff
  · by_cases word : first < 32
    · rw [if_pos ⟨rfl, ones⟩, if_pos (by omega), if_pos (Or.inl word), Nat.add_zero]
    · rw [if_pos ⟨rfl, ones⟩, if_neg (by omega), if_neg fun reached =>
        reached.elim word fun other => other ones]
  · rw [if_neg fun full => ones full.2, if_pos (Or.inr ones)]

/-- What `bitmap_ffs` returns where a bit is set: the index at which the walk lands, if it is below
the bound and the number of bits does not wrap. -/
theorem bitmapFfsInt_first {first : Nat}
    (least : IsLeast (bitsWith pbm true nbits.toNat) first) :
    bitmapFfsInt pbm nbits =
      if nbits.toNat ≤ 2 ^ 32 - 32 ∧ bitmapLands pbm .findFirstSet 0 0 first < nbits.toNat then
        Int32.ofNat (bitmapLands pbm .findFirstSet 0 0 first)
      else bmFull := by
  rw [bitmapFfsInt, bitmapHelperInt_first least]
  by_cases fits : nbits.toNat ≤ 2 ^ 32 - 32
  · rw [if_pos fits]
    simp only [fits, true_and]
  · rw [if_neg fits, if_neg fun both => fits both.1]

/-- Where none is set it is `BM_FULL`. -/
theorem bitmapFfsInt_none (none : bitsWith pbm true nbits.toNat = ∅) :
    bitmapFfsInt pbm nbits = bmFull := by
  rw [bitmapFfsInt, bitmapHelperInt_none]
  intro index below set
  exact (Set.ext_iff.mp none index).mp ⟨below, set⟩

/-- The first set bit is returned exactly when it is reached: the walk lands on the bit itself. -/
theorem findsFirstSet_iff : FindsFirstSet pbm nbits ↔ FirstSetReached pbm nbits := by
  have small := nbits.toNat_lt
  constructor
  · rintro ⟨finds, -⟩ first least
    have bounded : first < nbits.toNat := least.1.1
    have returned := finds first least
    rw [bitmapFfsInt_first least] at returned
    split_ifs at returned with found
    · obtain ⟨same, holds⟩ := (toInt_index (by omega)).mp returned
      refine ⟨found.1, holds, ?_⟩
      by_contra missed
      rw [bitmapLands_set, if_neg missed] at same
      omega
    · have full : bmFull.toInt = -1 := rfl
      omega
  · intro reached
    rcases bitsWith_cases pbm true nbits.toNat with ⟨first, least⟩ | none
    · obtain ⟨fits, holds, word⟩ := reached first least
      have bounded : first < nbits.toNat := least.1.1
      have returned := bitmapFfsInt_first least
      rw [bitmapLands_set, if_pos word, if_pos ⟨fits, bounded⟩] at returned
      refine ⟨?_, ?_⟩
      · intro other also
        rw [also.unique least, returned]
        exact (toInt_index (by omega)).mpr ⟨rfl, holds⟩
      · rw [returned]
        constructor
        · exact fun full => absurd full (index_ne_full (by omega))
        · intro none
          rw [none] at least
          exact least.1.elim
    · refine ⟨?_, fun _ => none, fun _ => bitmapFfsInt_none none⟩
      intro first least
      rw [none] at least
      exact least.1.elim

end FirstSet

/-- `has_pools_to_delete` under the mutex. -/
def NvmKvPoolMgr.hasPoolsToDelete (store : NvmKvStore) (mgr : NvmKvPoolMgr) : Bool :=
  bitmapFfsInt mgr.deleted (UInt32.ofNat store.maxPools) ≠ bmFull

section MarkedPools

variable {store : NvmKvStore} {mgr : NvmKvPoolMgr}

/-- The number of pools is one of 32 bits, far from wrapping. -/
theorem maxPools_word (store : NvmKvStore) :
    (UInt32.ofNat store.maxPools).toNat = store.maxPools ∧ store.maxPools ≤ 2 ^ 20 := by
  have bounded : store.maxPools ≤ 2 ^ 20 := store.poolsBounded
  exact ⟨UInt32.toNat_ofNat_of_lt' (Nat.lt_of_le_of_lt bounded (by decide)), bounded⟩

/-- The index below the bound is found by the walk with numbers of any size as well. -/
theorem bitmapFfs_isSome (pbm : KvBitmap) {nbits : UInt32} (fits : nbits.toNat ≤ 2 ^ 32 - 32) :
    (bitmapFfs pbm nbits.toNat).isSome = decide (bitmapFfsInt pbm nbits ≠ bmFull) := by
  have words : round32 nbits.toNat / 32 = (bitsPerUint32 (round32Word nbits)).toNat := by
    rw [words_walked, if_pos fits, round32, Nat.mul_div_cancel _ (by decide)]
  rw [bitmapFfs, bitmapHelper, words, bitmapFfsInt, bitmapHelperInt]
  rcases bitsWith_cases pbm true nbits.toNat with ⟨first, ⟨bounded, found⟩, minimal⟩ | none
  · have passed : ∀ index, 0 * 32 ≤ index → index < first → bitmapTest pbm index ≠ true := by
      intro index _ before same
      have least := minimal ⟨by omega, same⟩
      omega
    rw [@bitmapHelperLoop_of_first pbm nbits.toNat .findFirstSet _ found _ 0 0 (by omega)
      (by rw [words_walked, if_pos fits]; omega) passed]
    dsimp only
    split_ifs with below
    · exact (decide_eq_true (index_ne_full (by omega))).symm
    · rfl
  · have absent : ∀ index < nbits.toNat, bitmapTest pbm index ≠ true := fun index below set =>
      (Set.ext_iff.mp none index).mp ⟨below, set⟩
    rw [@bitmapHelperLoop_below pbm .findFirstSet _ absent]
    rfl

/-- The call under its mutex answers this. -/
theorem run_hasPoolsToDelete {media : PoolMedia} (free : mgr.mutexHeld = false) :
    ((PoolMachine.hasPoolsToDelete store).run (mgr, media)).map Prod.fst =
      some (mgr.hasPoolsToDelete store) := by
  obtain ⟨word, small⟩ := maxPools_word store
  have answered := @bitmapFfs_isSome mgr.deleted (UInt32.ofNat store.maxPools) (by omega)
  rw [word] at answered
  rw [PoolMachine.hasPoolsToDelete, PoolMachine.underMutex_run free, Option.map_some,
    NvmKvPoolMgr.hasPoolsToDelete, ← answered]
  rfl

/-- `has_pools_to_delete` is true exactly when some pool is marked. -/
def TellsMarked (store : NvmKvStore) (mgr : NvmKvPoolMgr) : Prop :=
  mgr.hasPoolsToDelete store = true ↔
    ∃ poolId < store.maxPools, bitmapTest mgr.deleted poolId = true

/-- The first marked pool is in the first word, in a word of which not all pools are marked, or
a whole word before the last pool. -/
def MarkedReached (store : NvmKvStore) (mgr : NvmKvPoolMgr) : Prop :=
  ∀ first, IsLeast (bitsWith mgr.deleted true store.maxPools) first →
    first < 32 ∨ mgr.deleted (first / 32) ≠ 0xffffffff ∨ first + 32 < store.maxPools

/-- Whether there are pools to delete is told exactly when the first marked pool is reached. -/
theorem tellsMarked_iff : TellsMarked store mgr ↔ MarkedReached store mgr := by
  obtain ⟨word, small⟩ := maxPools_word store
  rcases bitsWith_cases mgr.deleted true store.maxPools with ⟨first, least⟩ | none
  · obtain ⟨bounded, marked⟩ := least.1
    have returned := @bitmapFfsInt_first mgr.deleted (UInt32.ofNat store.maxPools) first
      (word.symm ▸ least)
    have some : ∃ poolId < store.maxPools, bitmapTest mgr.deleted poolId = true :=
      ⟨first, bounded, marked⟩
    have reached : MarkedReached store mgr ↔ first < 32 ∨ mgr.deleted (first / 32) ≠ 0xffffffff ∨
        first + 32 < store.maxPools :=
      ⟨fun all => all first least, fun here other also => (also.unique least).symm ▸ here⟩
    rw [TellsMarked, iff_true_right some, reached, NvmKvPoolMgr.hasPoolsToDelete,
      decide_eq_true_iff, returned, bitmapLands_set, word]
    by_cases whole : first < 32 ∨ mgr.deleted (first / 32) ≠ 0xffffffff
    · rw [if_pos whole, if_pos ⟨by omega, bounded⟩]
      exact iff_of_true (index_ne_full (by omega)) (whole.imp_right Or.inl)
    · rw [if_neg whole]
      by_cases behind : first + 32 < store.maxPools
      · rw [if_pos ⟨by omega, behind⟩]
        exact iff_of_true (index_ne_full (by omega)) (Or.inr (Or.inr behind))
      · rw [if_neg fun below => behind below.2]
        refine iff_of_false (fun differs => differs rfl) ?_
        rintro (word | other | below)
        · exact whole (Or.inl word)
        · exact whole (Or.inr other)
        · exact behind below
  · have returned := @bitmapFfsInt_none mgr.deleted (UInt32.ofNat store.maxPools)
      (word.symm ▸ none)
    have absent : ¬∃ poolId < store.maxPools, bitmapTest mgr.deleted poolId = true :=
      fun ⟨poolId, below, marked⟩ => (Set.ext_iff.mp none poolId).mp ⟨below, marked⟩
    refine iff_of_true ?_ ?_
    · rw [TellsMarked, iff_false_right absent, NvmKvPoolMgr.hasPoolsToDelete, returned]
      decide
    · intro first least
      rw [none] at least
      exact least.1.elim

/-- So what the call under its mutex answers is whether some pool is marked, exactly when the
first marked pool is reached. -/
theorem hasPoolsToDelete_answers {media : PoolMedia} (free : mgr.mutexHeld = false) :
    (((PoolMachine.hasPoolsToDelete store).run (mgr, media)).map Prod.fst = some true ↔
        ∃ poolId < store.maxPools, bitmapTest mgr.deleted poolId = true) ↔
      MarkedReached store mgr := by
  rw [run_hasPoolsToDelete free, Option.some.injEq]
  exact tellsMarked_iff

end MarkedPools

/-- A bitmap of two words that has the second word set. -/
def secondWordSet : KvBitmap := fun word => if word = 1 then 0xffffffff else 0

/-- A store of sixty-four pools. -/
def sixtyFourPools : NvmKvStore :=
  { NvmKvStore.terabyteStore with
    maxPools := 64
    poolsPositive := Nat.zero_lt_succ 63
    poolsBounded := Nat.le_of_ble_eq_true rfl }

/-- Its manager when the pools from 32 on are in use besides the default one and are all marked
to be deleted. -/
def secondWordMarked : NvmKvPoolMgr :=
  { NvmKvPoolMgr.created (fun _ => .zero) with
    inUse := bitmapSet secondWordSet 0
    deleted := secondWordSet
    totalNoPools := 33 }

/-- `bitmap_ffs` finds the first set bit exactly when its word is the first one or has a clear
bit, as far as the widths of its numbers reach. Whether there are pools to delete is told
exactly when the first marked pool is in such a word or a word's length before the last one. -/
theorem bitmap_ffs_first_set (pbm : KvBitmap) (nbits : UInt32) (store : NvmKvStore)
    (mgr : NvmKvPoolMgr) :
    (FindsFirstSet pbm nbits ↔ FirstSetReached pbm nbits) ∧
      (TellsMarked store mgr ↔ MarkedReached store mgr) :=
  ⟨findsFirstSet_iff, tellsMarked_iff⟩

/-- A store of sixty-four pools whose second thirty-two are all marked has none to delete. -/
theorem marked_word_missed :
    ¬((∀ pbm nbits, FindsFirstSet pbm nbits) ∧ ∀ store mgr, TellsMarked store mgr) := by
  rintro ⟨-, tells⟩
  have marked := (tells sixtyFourPools secondWordMarked).mpr ⟨32, by decide, by decide⟩
  have missed : bitmapFfsInt secondWordSet (UInt32.ofNat 64) = bmFull := by decide
  exact of_decide_eq_true marked missed

section FirstClear

variable {pbm : KvBitmap} {nbits : UInt32}

/-- `bitmap_ffa` returns the first clear bit and sets it and no other, and without a clear bit it
returns that there is none and leaves the bitmap as it was. -/
def AllocatesFirstClear (pbm : KvBitmap) (nbits : UInt32) : Prop :=
  (∀ first, IsLeast (bitsWith pbm false nbits.toNat) first →
      (bitmapFfaInt pbm nbits).1.toInt = first ∧
        ∀ index, bitmapTest (bitmapFfaInt pbm nbits).2 index =
          (decide (index = first) || bitmapTest pbm index)) ∧
    (bitsWith pbm false nbits.toNat = ∅ → bitmapFfaInt pbm nbits = (bmFull, pbm))

/-- `bitmap_ffa` allocates the first clear bit exactly when the number of bits can be rounded up
and an `int` holds the index. -/
theorem bitmap_ffa_first_clear (pbm : KvBitmap) (nbits : UInt32) :
    AllocatesFirstClear pbm nbits ↔ ∀ first, IsLeast (bitsWith pbm false nbits.toNat) first →
      nbits.toNat ≤ 2 ^ 32 - 32 ∧ first < 2 ^ 31 := by
  have small := nbits.toNat_lt
  have searched : ∀ {first}, IsLeast (bitsWith pbm false nbits.toNat) first →
      bitmapFfaInt pbm nbits =
        if nbits.toNat ≤ 2 ^ 32 - 32 then (Int32.ofNat first, bitmapSet pbm first)
        else (bmFull, pbm) := by
    intro first least
    have bounded : first < nbits.toNat := least.1.1
    have lands : bitmapLands pbm .findFirstClearAndSet 0 0 first = first :=
      if_neg fun impossible => BitmapAction.noConfusion impossible.1
    rw [bitmapFfaInt, @bitmapHelperInt_first _ _ .findFirstClearAndSet _ least, lands,
      if_pos bounded, if_pos rfl]
  constructor
  · rintro ⟨allocates, -⟩ first least
    have bounded : first < nbits.toNat := least.1.1
    obtain ⟨returned, -⟩ := allocates first least
    rw [searched least] at returned
    split_ifs at returned with fits
    · exact ⟨fits, ((toInt_index (by omega)).mp returned).2⟩
    · have full : bmFull.toInt = -1 := rfl
      dsimp only at returned
      omega
  · intro reached
    refine ⟨?_, ?_⟩
    · intro first least
      obtain ⟨fits, holds⟩ := reached first least
      rw [searched least, if_pos fits]
      exact ⟨(toInt_index (by omega)).mpr ⟨rfl, holds⟩, bitmapTest_set pbm first⟩
    · intro none
      refine @bitmapHelperInt_none _ _ .findFirstClearAndSet fun index below clear => ?_
      exact (Set.ext_iff.mp none index).mp ⟨below, clear⟩

/-- With a number of bits that cannot be rounded up, no bit of a blank bitmap is found. -/
theorem rounded_bits_wrap : ¬∀ pbm nbits, AllocatesFirstClear pbm nbits := by
  intro allocates
  have least : IsLeast (bitsWith .zero false (0xffffffff : UInt32).toNat) 0 :=
    ⟨⟨by decide, bitmapTest_zero 0⟩, fun _ _ => Nat.zero_le _⟩
  have returned := ((allocates .zero 0xffffffff).1 0 least).1
  have full : (bitmapFfaInt .zero 0xffffffff).1 = bmFull := by decide
  rw [full] at returned
  exact absurd returned (by decide)

end FirstClear

end Nvmkv
