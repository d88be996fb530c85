import Nvmkv.RoundTrip

/-!
# Rounds of a reading before its last one

A reading passes over some addresses before it finds its key. What these rounds
leave in the buffers depends on the windows of the addresses passed over and on
nothing else (`passedRounds_congr`); in particular not on what was written at
the address found.

The lengths of an exact reading are only ever set from the run found in the
present round, and the number of vectors is never set back. A run that is too
short for the value, met on the way, therefore cuts off the last sector of the
value for good when just the sectors of the value are asked for. No round makes its
vector longer than the caller's buffer, so the bytes behind the buffer stay what they
were (`readRounds_beyond`).
-/

namespace Nvmkv

variable {store : NvmKvStore}

/-- The buffers after some rounds, none of which is the last. -/
def passedRounds (store : NvmKvStore) (media : Media) (valueLen : Nat) (readExact : Bool)
    (lbas : List Nat) (buffers : ReadBuffers) : ReadBuffers :=
  lbas.foldl (fun buffers lba => readRound store media valueLen readExact lba buffers) buffers

/-- The rounds of a reading are those before the address found and the one there. -/
theorem readRounds_split {media : Media} {poolId : UInt32} {key : List UInt8}
    {valueLen lba : Nat} {readExact : Bool} {earlier later : List Nat} {buffers : ReadBuffers}
    (missed : ∀ passed, passed ∈ earlier → holds store media poolId key passed = false)
    (held : holds store media poolId key lba = true) :
    readRounds store media poolId key valueLen readExact (earlier ++ lba :: later) buffers =
      readRound store media valueLen readExact lba
        (passedRounds store media valueLen readExact earlier buffers) := by
  induction earlier generalizing buffers with
  | nil =>
    simp only [List.nil_append, readRounds, held, if_true]
    rfl
  | cons passed rest inductionHypothesis =>
    simp only [List.cons_append, readRounds, missed passed List.mem_cons_self,
      Bool.false_eq_true, if_false]
    rw [inductionHypothesis fun next member => missed next (List.mem_cons_of_mem _ member)]
    rfl

/-- The value part of a reading stays within the window of its address. -/
def WithinWindow (store : NvmKvStore) (buffers : ReadBuffers) : Prop :=
  buffers.valueIovLen + store.sectorSize ≤ 2 ^ store.valueBits * store.sectorSize

/-- What is mapped of a window has at most the bytes of a slot. -/
theorem NvmKvStore.window_bytes (media : Media) (lba : Nat) :
    (media.rangeExists ⟨lba, store.maxSearchRange⟩).length * store.sectorSize ≤
      2 ^ store.valueBits * store.sectorSize := by
  apply Nat.mul_le_mul_right
  rw [← NvmKvStore.maxSearchRange_eq]
  exact Media.rangeExists_length_le _

/-- A round limits the buffers to its window, so that they stay within one. -/
theorem withinWindow_roundLimits {buffers : ReadBuffers} (within : WithinWindow store buffers)
    (media : Media) (valueLen : Nat) (readExact : Bool) (lba : Nat) :
    WithinWindow store (roundLimits store media valueLen readExact lba buffers) := by
  have bytes := store.window_bytes media lba
  have one : store.sectorSize ≤ 2 ^ store.valueBits * store.sectorSize :=
    Nat.le_mul_of_pos_left _ (Nat.two_pow_pos _)
  unfold WithinWindow at *
  unfold roundLimits limitRead
  simp only
  split_ifs
  · have := Nat.mod_le ((media.rangeExists ⟨lba, store.maxSearchRange⟩).length *
      store.sectorSize - store.sectorSize) (2 ^ 32)
    simp only
    omega
  · exact within
  · exact within
  · exact within

/-- Limiting a reading leaves the buffers themselves alone. -/
theorem roundLimits_value (media : Media) (valueLen : Nat) (readExact : Bool) (lba : Nat)
    (buffers : ReadBuffers) :
    (roundLimits store media valueLen readExact lba buffers).value = buffers.value := by
  unfold roundLimits limitRead
  simp only
  split_ifs <;> rfl

/-- So do the buffers that it leaves. -/
theorem withinWindow_readRound {buffers : ReadBuffers} (within : WithinWindow store buffers)
    (media : Media) (valueLen : Nat) (readExact : Bool) (lba : Nat) :
    WithinWindow store (readRound store media valueLen readExact lba buffers) := by
  unfold readRound
  split
  · exact within
  · exact withinWindow_roundLimits within media valueLen readExact lba

/-- Reading at an address depends on the sectors of its window only. -/
theorem readSlot_congr {media other : Media} {lba : Nat} {buffers : ReadBuffers}
    (within : WithinWindow store buffers)
    (same : ∀ l, lba ≤ l → l < lba + 2 ^ store.valueBits → media l = other l) :
    readSlot store media lba buffers = readSlot store other lba buffers := by
  have positive := store.sector_positive
  have reads : ∀ i, i < 2 ^ store.valueBits * store.sectorSize →
      media.read store.sectorSize lba i = other.read store.sectorSize lba i := by
    intro i inside
    apply Media.read_congr
    have sector : i / store.sectorSize < 2 ^ store.valueBits := by
      rwa [Nat.div_lt_iff_lt_mul positive]
    generalize i / store.sectorSize = quotient at sector ⊢
    exact same _ (by omega) (by omega)
  have header : slotBuffer store media buffers.buf lba =
      slotBuffer store other buffers.buf lba := by
    funext i
    simp only [slotBuffer, Region.copy]
    split
    · apply reads
      have one : store.sectorSize ≤ 2 ^ store.valueBits * store.sectorSize :=
        Nat.le_mul_of_pos_left _ (Nat.two_pow_pos _)
      omega
    · rfl
  have value : readValue store media buffers buffers.value.bytes lba =
      readValue store other buffers buffers.value.bytes lba := by
    unfold readValue
    split
    · funext i
      unfold WithinWindow at within
      simp only [Region.copy, Region.drop]
      split
      · apply reads
        omega
      · rfl
    · rfl
  unfold readSlot
  rw [header, value]

/-- What is mapped of a window depends on its sectors. -/
theorem windowFree_congr {media other : Media} {lba : Nat}
    (same : ∀ l, lba ≤ l → l < lba + 2 ^ store.valueBits → media l = other l) :
    media.rangeExists ⟨lba, store.maxSearchRange⟩ =
      other.rangeExists ⟨lba, store.maxSearchRange⟩ ∧
    windowFree store media lba = windowFree store other lba := by
  have ranges : media.rangeExists ⟨lba, store.maxSearchRange⟩ =
      other.rangeExists ⟨lba, store.maxSearchRange⟩ := by
    apply Media.rangeExists_congr
    intro i inside
    rw [NvmKvStore.maxSearchRange_eq] at inside
    exact same _ (by omega) (by omega)
  exact ⟨ranges, by rw [windowFree, windowFree, ranges]⟩

/-- So does a whole round at its address. -/
theorem readRound_congr {media other : Media} {lba : Nat} {buffers : ReadBuffers}
    (within : WithinWindow store buffers)
    (same : ∀ l, lba ≤ l → l < lba + 2 ^ store.valueBits → media l = other l)
    (valueLen : Nat) (readExact : Bool) :
    readRound store media valueLen readExact lba buffers =
      readRound store other valueLen readExact lba buffers := by
  obtain ⟨ranges, free⟩ := windowFree_congr same
  have limits : roundLimits store media valueLen readExact lba buffers =
      roundLimits store other valueLen readExact lba buffers := by
    rw [roundLimits, roundLimits, ranges]
  have limited := withinWindow_roundLimits within other valueLen readExact lba
  rw [readRound, readRound, free, limits, readSlot_congr limited same]

/-- The rounds on the way depend on the windows passed over only. -/
theorem passedRounds_congr {media other : Media} {valueLen : Nat} {readExact : Bool}
    {lbas : List Nat} {buffers : ReadBuffers} (within : WithinWindow store buffers)
    (same : ∀ lba, lba ∈ lbas → ∀ l, lba ≤ l → l < lba + 2 ^ store.valueBits →
      media l = other l) :
    passedRounds store media valueLen readExact lbas buffers =
      passedRounds store other valueLen readExact lbas buffers := by
  induction lbas generalizing buffers with
  | nil => rfl
  | cons lba rest inductionHypothesis =>
    have first := readRound_congr within (same lba List.mem_cons_self) valueLen readExact
    have next := @inductionHypothesis
      (readRound store other valueLen readExact lba buffers)
      (withinWindow_readRound within other valueLen readExact lba)
      fun next member => same next (List.mem_cons_of_mem _ member)
    unfold passedRounds at *
    simp only [List.foldl_cons]
    rw [first, next]

/-- The rounds that are passed stay within windows, too. Induction is on the addresses. -/
theorem withinWindow_passedRounds {media : Media} {valueLen : Nat} {readExact : Bool}
    {lbas : List Nat} {buffers : ReadBuffers} (within : WithinWindow store buffers) :
    WithinWindow store (passedRounds store media valueLen readExact lbas buffers) := by
  induction lbas generalizing buffers with
  | nil => exact within
  | cons lba rest inductionHypothesis =>
    exact inductionHypothesis (withinWindow_readRound within media valueLen readExact lba)

/-- The value delivered for a pair depends on the window of its address and on the
buffers before its round. -/
theorem gotValue_congr {media other : Media} {lba : Nat} {buffers : ReadBuffers}
    (within : WithinWindow store buffers)
    (same : ∀ l, lba ≤ l → l < lba + 2 ^ store.valueBits → media l = other l)
    (valueLen : Nat) (readExact : Bool) :
    gotValue store media (readRound store media valueLen readExact lba buffers) lba =
      gotValue store other (readRound store other valueLen readExact lba buffers) lba := by
  have header := @storedHeader_congr store _ _ _
    (same lba le_rfl (Nat.lt_add_of_pos_right (Nat.two_pow_pos _)))
  rw [readRound_congr within same]
  unfold gotValue
  rw [header]

/-- The buffers of `kv_get` read within the window. -/
theorem withinWindow_getBuffers {valueLen : Nat} (value : Memory) (readBuf : Region)
    (bounded : valueLen ≤ nvmKvMaxValueSize) :
    WithinWindow store (getBuffers store value valueLen readBuf) := by
  have limit : (nvmKvMaxValueSize : Nat) = 1047552 := rfl
  have range : mKvMaxValueRange = 2097152 := rfl
  have rounded := (store.round_upto_sector_bounds valueLen (by omega)).2
  obtain ⟨product, _, _⟩ := store.sector_value_bits
  have small := store.sector_upper
  unfold WithinWindow getBuffers
  rw [Nat.mul_comm, product]
  simp only
  omega

/-- The last of the sectors asked for will not be read. -/
def CutShort (store : NvmKvStore) (sectors : Nat) (buffers : ReadBuffers) : Prop :=
  buffers.numIovs ≠ 2 ∨ buffers.valueIovLen + store.sectorSize ≤ sectors * store.sectorSize

/-- The rest of a run behind its first sector, in bytes. -/
theorem run_rest (media : Media) (lba : Nat) :
    ((media.rangeExists ⟨lba, store.maxSearchRange⟩).length * store.sectorSize -
      store.sectorSize) % 2 ^ 32 =
    ((media.rangeExists ⟨lba, store.maxSearchRange⟩).length - 1) * store.sectorSize := by
  have bytes := store.window_bytes media lba
  obtain ⟨product, _, _⟩ := store.sector_value_bits
  have range : mKvMaxValueRange = 2097152 := rfl
  rw [Nat.mul_comm (2 ^ store.valueBits), product] at bytes
  rw [Nat.sub_mul, Nat.one_mul]
  exact Nat.mod_eq_of_lt (by omega)

/-- A rest that is shorter than the sectors asked for lacks one of them. -/
theorem rest_lacks {rest sectors : Nat}
    (shorter : rest * store.sectorSize < sectors * store.sectorSize) :
    rest * store.sectorSize + store.sectorSize ≤ sectors * store.sectorSize := by
  have less : rest < sectors := Nat.lt_of_mul_lt_mul_right shorter
  have := Nat.mul_le_mul_right store.sectorSize (Nat.succ_le_of_lt less)
  rwa [Nat.succ_mul] at this

/-- A reading that was cut short stays cut short. -/
theorem cutShort_roundLimits {media : Media} {valueLen sectors lba : Nat} {readExact : Bool}
    {buffers : ReadBuffers}
    (asked : nvmKvRoundUptoBlk valueLen store.sectorSize = sectors * store.sectorSize)
    (cut : CutShort store sectors buffers) :
    CutShort store sectors (roundLimits store media valueLen readExact lba buffers) := by
  unfold roundLimits limitRead
  simp only [run_rest, asked]
  split
  · split
    · split
      · rename_i shorter
        exact .inr (rest_lacks shorter)
      · exact cut
    · exact .inl (by simp)
  · exact cut

/-- A run with no more sectors than asked for, the first one included, cuts the
reading short. -/
theorem cutShort_of_short {media : Media} {valueLen sectors lba : Nat} {buffers : ReadBuffers}
    (asked : nvmKvRoundUptoBlk valueLen store.sectorSize = sectors * store.sectorSize)
    (positive : valueLen ≠ 0) (some : 0 < sectors)
    (short : (media.rangeExists ⟨lba, store.maxSearchRange⟩).length ≤ sectors) :
    CutShort store sectors (roundLimits store media valueLen true lba buffers) := by
  have shorter : ((media.rangeExists ⟨lba, store.maxSearchRange⟩).length - 1) *
      store.sectorSize < sectors * store.sectorSize :=
    Nat.mul_lt_mul_of_pos_right (by omega) store.sector_positive
  simp only [roundLimits, positive, ne_eq, not_false_eq_true, and_self, if_true, limitRead,
    run_rest, asked, shorter]
  split
  · exact .inr (rest_lacks shorter)
  · exact .inl (by simp)

/-- After a window with a run that is too short has been passed, the reading is cut
short. Induction follows the rounds. -/
theorem cutShort_passedRounds {media : Media} {valueLen sectors : Nat} {lbas : List Nat}
    {buffers : ReadBuffers}
    (asked : nvmKvRoundUptoBlk valueLen store.sectorSize = sectors * store.sectorSize)
    (positive : valueLen ≠ 0) (some : 0 < sectors)
    (cut : CutShort store sectors buffers ∨ ∃ lba, lba ∈ lbas ∧
      windowFree store media lba = false ∧
      (media.rangeExists ⟨lba, store.maxSearchRange⟩).length ≤ sectors) :
    CutShort store sectors (passedRounds store media valueLen true lbas buffers) := by
  induction lbas generalizing buffers with
  | nil =>
    rcases cut with before | ⟨lba, member, _⟩
    · exact before
    · exact absurd member List.not_mem_nil
  | cons first rest inductionHypothesis =>
    have step : passedRounds store media valueLen true (first :: rest) buffers =
        passedRounds store media valueLen true rest
          (readRound store media valueLen true first buffers) := rfl
    rw [step]
    apply inductionHypothesis
    rcases cut with before | ⟨lba, member, mapped, short⟩
    · refine .inl ?_
      unfold readRound
      split
      · exact before
      · exact cutShort_roundLimits asked before
    · rcases List.mem_cons.mp member with here | later
      · subst here
        refine .inl ?_
        rw [readRound, if_neg fun passed => by simp [mapped] at passed]
        exact cutShort_of_short asked positive some short
      · exact .inr ⟨lba, later, mapped, short⟩

/-- A round that is cut short leaves the last sector of the value as it was. -/
theorem readRound_cutShort {media : Media} {valueLen sectors lba i : Nat} {readExact : Bool}
    {buffers : ReadBuffers}
    (asked : nvmKvRoundUptoBlk valueLen store.sectorSize = sectors * store.sectorSize)
    (cut : CutShort store sectors buffers)
    (last : sectors * store.sectorSize ≤ i + store.sectorSize) :
    (readRound store media valueLen readExact lba buffers).value.bytes i =
      buffers.value.bytes i := by
  have still := @cutShort_roundLimits store media valueLen sectors lba readExact buffers asked cut
  have value := @roundLimits_value store media valueLen readExact lba buffers
  generalize limited : roundLimits store media valueLen readExact lba buffers = limits
    at still value
  unfold readRound
  split
  · rfl
  · rw [limited]
    simp only [readSlot, readValue, value]
    split
    · rename_i double
      rcases still with single | shorter
      · exact absurd double single
      · exact Region.copy_outside _ _ (.inr (by omega))
    · rfl

section Beyond

variable {store : NvmKvStore} {media : Media} {poolId : UInt32} {key : List UInt8}
  {valueLen : Nat}

/-- An accepted buffer of `kv_get` is whole sectors, and one at least. -/
theorem roundUpto_valid (valid : kvValidateValue store true valueLen = true) :
    nvmKvRoundUptoBlk valueLen store.sectorSize = valueLen ∧ store.sectorSize ≤ valueLen := by
  have limit : (nvmKvMaxValueSize : Nat) = 1047552 := rfl
  obtain ⟨positive, bounded, whole⟩ := of_decide_eq_true valid
  have sector := store.sector_positive
  obtain ⟨count, sectors⟩ := Nat.dvd_of_mod_eq_zero (whole rfl)
  have rounded := store.capabilities.round_upto_sector valueLen (by omega)
  have last : (valueLen + (store.sectorSize - 1)) / store.sectorSize = count := by
    rw [sectors, Nat.add_comm, Nat.add_mul_div_left _ _ sector,
      Nat.div_eq_of_lt (by omega), Nat.zero_add]
  refine ⟨?_, Nat.le_of_dvd positive (Nat.dvd_of_mod_eq_zero (whole rfl))⟩
  change nvmKvRoundUptoBlk valueLen store.sectorSize =
    (valueLen + (store.sectorSize - 1)) / store.sectorSize * store.sectorSize at rounded
  rw [rounded, last, sectors, Nat.mul_comm]

/-- Limiting a reading does not make its vector longer. -/
theorem limitRead_short (valid : kvValidateValue store true valueLen = true)
    {buffers : ReadBuffers} (short : buffers.valueIovLen ≤ valueLen) (found : NvmBlockRange) :
    (limitRead store valueLen found buffers).valueIovLen ≤ valueLen := by
  have whole := (roundUpto_valid valid).1
  unfold limitRead
  dsimp only
  split_ifs with some longer
  · rw [whole] at longer
    exact longer.le
  · exact short
  · exact short

/-- Limiting a reading in a round does not make its vector longer either. -/
theorem roundLimits_short (valid : kvValidateValue store true valueLen = true)
    {buffers : ReadBuffers} (short : buffers.valueIovLen ≤ valueLen) (readExact : Bool)
    (lba : Nat) :
    (roundLimits store media valueLen readExact lba buffers).valueIovLen ≤ valueLen := by
  unfold roundLimits
  split_ifs
  · exact limitRead_short valid short _
  · exact short

/-- A byte behind the buffer is what it was before the rounds. Induction is on the
addresses. -/
theorem readRounds_beyond (valid : kvValidateValue store true valueLen = true) {readExact : Bool}
    {i : Nat} (beyond : valueLen ≤ i) {lbas : List Nat} {buffers : ReadBuffers}
    (short : buffers.valueIovLen ≤ valueLen) :
    (readRounds store media poolId key valueLen readExact lbas buffers).value.bytes i =
      buffers.value.bytes i := by
  induction lbas generalizing buffers with
  | nil => rfl
  | cons lba rest inductionHypothesis =>
    have round : (readRound store media valueLen readExact lba buffers).value.bytes i =
        buffers.value.bytes i ∧
        (readRound store media valueLen readExact lba buffers).valueIovLen ≤ valueLen := by
      unfold readRound
      split
      · exact ⟨rfl, short⟩
      · have limited := @roundLimits_short store media valueLen valid buffers short readExact lba
        refine ⟨?_, limited⟩
        have kept := @roundLimits_value store media valueLen readExact lba buffers
        rw [readSlot, readValue, kept]
        split
        · exact Region.copy_outside _ _ (.inr (by omega))
        · rfl
    rw [readRounds]
    split
    · exact round.1
    · rw [inductionHypothesis round.2, round.1]

end Beyond

end Nvmkv
