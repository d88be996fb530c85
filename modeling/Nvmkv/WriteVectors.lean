import Nvmkv.LoneDelete
import Nvmkv.LonePut

/-!
# The vectors of a put

The write vectors of a pair follow each other without a gap: together they map
the header sector and, when the value is written from the caller's buffer, the
sectors of the value behind it. Their number is the quotient rounded up. The
number that the layout announces is computed by masking and is never larger; it
is smaller when the greatest length of a vector is not a power of two.
-/

namespace Nvmkv

namespace Media

variable (media : Media)

/-- A write of no sectors changes nothing. -/
@[simp] theorem write_zero (sectorSize lba : Nat) (source : Region) :
    media.write sectorSize lba 0 source = media := by
  funext l
  exact write_outside (by omega)

/-- Writing a run and the run behind it writes both. -/
theorem write_write (sectorSize lba first second : Nat) (source : Region) :
    (media.write sectorSize lba first source).write sectorSize (lba + first) second
      (source.drop (first * sectorSize)) = media.write sectorSize lba (first + second) source := by
  funext l
  simp only [write, Region.drop_drop]
  split
  · rename_i inside
    rw [if_pos (by omega)]
    have offset : first * sectorSize + (l - (lba + first)) * sectorSize =
        (l - lba) * sectorSize := by
      rw [← Nat.add_mul]
      congr 1
      omega
    rw [offset]
  · split
    · rw [if_pos (by omega)]
    · rw [if_neg (by omega)]

end Media

variable {capabilities : NvmKvStoreCapabilities}

/-- One vector takes a whole number of sectors. -/
theorem maxWrite_sectors (capabilities : NvmKvStoreCapabilities) :
    ∃ limit, 0 < limit ∧ capabilities.maxWriteSize = limit * capabilities.nvmSectorSize := by
  obtain ⟨limit, limited⟩ : capabilities.nvmSectorSize ∣ capabilities.maxWriteSize :=
    capabilities.writeSectors
  have nonzero : 0 < capabilities.maxWriteSize := capabilities.writePositive
  refine ⟨limit, ?_, by rw [limited, Nat.mul_comm]⟩
  rw [limited] at nonzero
  exact Nat.pos_of_mul_pos_left nonzero

/-- The vectors needed for a length. -/
def vectorsFor (capabilities : NvmKvStoreCapabilities) (length : Nat) : Nat :=
  (length + (capabilities.maxWriteSize - 1)) / capabilities.maxWriteSize

/-- The vectors announced for a length. -/
def vectorsAnnounced (capabilities : NvmKvStoreCapabilities) (length : Nat) : Nat :=
  nvmKvRoundUptoBlk length capabilities.maxWriteSize / capabilities.maxWriteSize

/-- Masking never gives more than rounding up. -/
theorem vectorsAnnounced_le (capabilities : NvmKvStoreCapabilities) (length : Nat) :
    vectorsAnnounced capabilities length ≤ vectorsFor capabilities length := by
  have positive : 0 < capabilities.maxWriteSize := capabilities.writePositive
  apply Nat.div_le_div_right
  rw [nvmKvRoundUptoBlk, if_neg (Nat.ne_of_gt positive)]
  exact Nat.and_le_left.trans (Nat.mod_le _ _)

/-- A rest that still needs a vector needs one more than what is left after it. -/
theorem vectorsFor_step {remaining : Nat} (more : 0 < remaining) :
    vectorsFor capabilities remaining =
      vectorsFor capabilities (remaining - min remaining capabilities.maxWriteSize) + 1 := by
  have positive : 0 < capabilities.maxWriteSize := capabilities.writePositive
  unfold vectorsFor
  by_cases last : remaining ≤ capabilities.maxWriteSize
  · rw [Nat.min_eq_left last, Nat.sub_self, Nat.zero_add,
      Nat.div_eq_of_lt (a := capabilities.maxWriteSize - 1) (by omega)]
    apply Nat.div_eq_of_lt_le <;> omega
  · rw [Nat.min_eq_right (by omega), ← Nat.add_div_right _ positive]
    congr 1
    omega

/-- The vectors filled for a length are as many as needed. -/
theorem fillIovec_length (tempBuf : Memory) (keyHashVal : Nat) :
    ∀ fuel remaining count, remaining ≤ fuel →
      (fillIovec capabilities tempBuf keyHashVal fuel remaining count).length =
        vectorsFor capabilities remaining := by
  have positive : 0 < capabilities.maxWriteSize := capabilities.writePositive
  have none : vectorsFor capabilities 0 = 0 := by
    unfold vectorsFor
    exact Nat.div_eq_of_lt (by omega)
  intro fuel
  induction fuel with
  | zero =>
    intro remaining count enough
    rw [Nat.le_zero.mp enough, none]
    rfl
  | succ fuel inductionHypothesis =>
    intro remaining count enough
    rw [fillIovec]
    by_cases finished : remaining = 0
    · rw [if_pos finished, finished, none]
      rfl
    · have size : (if remaining < capabilities.maxWriteSize then remaining
          else capabilities.maxWriteSize) = min remaining capabilities.maxWriteSize := by
        split <;> omega
      simp only [if_neg finished, size, List.length_cons]
      rw [inductionHypothesis _ _ (by omega), ← vectorsFor_step (by omega)]

/-- The vectors filled for whole sectors write the run of these sectors.

Induction is on the bound of the rounds. After `count` vectors of the greatest
length, the next one starts where they end, in memory and on the media. -/
theorem fillIovec_applied (tempBuf : Memory) (keyHashVal : Nat) :
    ∀ fuel sectors count (media : Media),
      sectors * capabilities.nvmSectorSize ≤ fuel →
      media.applyBatch capabilities.nvmSectorSize (fillIovec capabilities tempBuf keyHashVal fuel
        (sectors * capabilities.nvmSectorSize) count) =
      media.write capabilities.nvmSectorSize
        (keyHashVal + count * (capabilities.maxWriteSize / capabilities.nvmSectorSize)) sectors
        (tempBuf.bytes.drop (count * capabilities.maxWriteSize)) := by
  have positive := capabilities.sector_positive
  obtain ⟨limit, limitPositive, limited⟩ := maxWrite_sectors capabilities
  have perVector : capabilities.maxWriteSize / capabilities.nvmSectorSize = limit := by
    rw [limited, Nat.mul_div_cancel _ positive]
  rw [perVector]
  intro fuel
  induction fuel with
  | zero =>
    intro sectors count media enough
    have none : sectors = 0 := by
      rcases Nat.mul_eq_zero.mp (Nat.le_zero.mp enough) with none | none
      · exact none
      · omega
    subst none
    rw [Nat.zero_mul, fillIovec, Media.write_zero]
    rfl
  | succ fuel inductionHypothesis =>
    intro sectors count media enough
    rw [fillIovec]
    by_cases finished : sectors = 0
    · subst finished
      rw [Nat.zero_mul, if_pos rfl, Media.write_zero]
      rfl
    · have some : ¬sectors * capabilities.nvmSectorSize = 0 := by
        intro zero
        rcases Nat.mul_eq_zero.mp zero with none | none <;> omega
      obtain ⟨step, stepped⟩ : ∃ step, step = min limit sectors := ⟨_, rfl⟩
      have size : (if sectors * capabilities.nvmSectorSize < capabilities.maxWriteSize
          then sectors * capabilities.nvmSectorSize else capabilities.maxWriteSize) =
          step * capabilities.nvmSectorSize := by
        rw [limited, lesser_sectors positive, stepped]
      have whole : step * capabilities.nvmSectorSize / capabilities.nvmSectorSize = step :=
        Nat.mul_div_cancel _ positive
      have left : sectors * capabilities.nvmSectorSize - step * capabilities.nvmSectorSize =
          (sectors - step) * capabilities.nvmSectorSize := (Nat.sub_mul _ _ _).symm
      have progress : (sectors - step) * capabilities.nvmSectorSize ≤ fuel := by
        have shorter : step * capabilities.nvmSectorSize > 0 :=
          Nat.mul_pos (by omega) positive
        omega
      simp only [if_neg some, size, perVector, Media.applyBatch_cons, Media.applyIovec, whole, left]
      rw [inductionHypothesis _ _ _ progress]
      by_cases last : sectors ≤ limit
      · have all : step = sectors := by omega
        rw [all, Nat.sub_self, Media.write_zero]
      · have full : step = limit := by omega
        have place : keyHashVal + (count + 1) * limit = keyHashVal + count * limit + step := by
          rw [full, Nat.add_mul, Nat.one_mul, Nat.add_assoc]
        have memory : tempBuf.bytes.drop ((count + 1) * capabilities.maxWriteSize) =
            (tempBuf.bytes.drop (count * capabilities.maxWriteSize)).drop
              (step * capabilities.nvmSectorSize) := by
          rw [Region.drop_drop, full, ← limited, Nat.add_mul, Nat.one_mul]
        rw [place, memory, Media.write_write]
        congr 1
        omega

/-- Header, key and value fit into one sector. -/
def fitsSector (capabilities : NvmKvStoreCapabilities) (keyLen valueLen : Nat) : Prop :=
  mKvHeaderSize + keyLen + valueLen ≤ capabilities.nvmSectorSize

/-- Whether a pair fits a sector can be computed. -/
instance (keyLen valueLen : Nat) : Decidable (fitsSector capabilities keyLen valueLen) :=
  inferInstanceAs (Decidable (_ ≤ _))

/-- The length of a value in whole sectors. -/
def roundedLen (capabilities : NvmKvStoreCapabilities) (valueLen : Nat) : Nat :=
  nvmKvRoundUptoBlk valueLen capabilities.nvmSectorSize

/-- The sectors of a value. -/
def valueSectors (capabilities : NvmKvStoreCapabilities) (valueLen : Nat) : Nat :=
  (valueLen + (capabilities.nvmSectorSize - 1)) / capabilities.nvmSectorSize

/-- A value is rounded up to its sectors. -/
theorem roundedLen_eq (valueLen : Nat) (bounded : valueLen < 2 ^ 63) :
    roundedLen capabilities valueLen =
      valueSectors capabilities valueLen * capabilities.nvmSectorSize :=
  capabilities.round_upto_sector valueLen bounded

/-- They are enough for the value, and one less would not be. -/
theorem valueSectors_covers (capabilities : NvmKvStoreCapabilities) (valueLen : Nat) :
    valueLen ≤ valueSectors capabilities valueLen * capabilities.nvmSectorSize ∧
      valueSectors capabilities valueLen * capabilities.nvmSectorSize <
        valueLen + capabilities.nvmSectorSize := by
  have positive := capabilities.sector_positive
  have split := Nat.div_add_mod (valueLen + (capabilities.nvmSectorSize - 1))
    capabilities.nvmSectorSize
  have rest := Nat.mod_lt (valueLen + (capabilities.nvmSectorSize - 1)) positive
  rw [Nat.mul_comm] at split
  unfold valueSectors
  constructor <;> omega

/-- A pair that fits is written from the pool's buffer, behind its key. -/
theorem writeLayout_fits {keyLen valueLen : Nat} (value : Memory)
    (fits : fitsSector capabilities keyLen valueLen) :
    writeLayout capabilities keyLen value valueLen =
      { userBufferUsage := false
        valueOffset := mKvHeaderSize + keyLen
        iovLen := roundedLen capabilities (mKvHeaderSize + keyLen + valueLen)
        iovCount := vectorsAnnounced capabilities
          (roundedLen capabilities (mKvHeaderSize + keyLen + valueLen)) } := by
  have short : kvUseUserBuf (mKvHeaderSize + keyLen + valueLen) capabilities.nvmSectorSize =
      false := decide_eq_false (Nat.not_lt.mpr fits)
  have inside : ¬capabilities.nvmSectorSize < mKvHeaderSize + keyLen + valueLen :=
    Nat.not_lt.mpr fits
  simp only [writeLayout, short, Bool.false_and, Bool.false_eq_true, if_false, inside, and_false,
    Nat.zero_add]
  rfl

/-- A longer pair is written from an aligned buffer of the caller. -/
theorem writeLayout_aligned {keyLen valueLen : Nat} {value : Memory}
    (long : ¬fitsSector capabilities keyLen valueLen)
    (aligned : value.address % capabilities.nvmSectorSize = 0) :
    writeLayout capabilities keyLen value valueLen =
      { userBufferUsage := true
        valueOffset := capabilities.nvmSectorSize
        iovLen := roundedLen capabilities valueLen
        iovCount := 1 + vectorsAnnounced capabilities (roundedLen capabilities valueLen) } := by
  have tooLong : kvUseUserBuf (mKvHeaderSize + keyLen + valueLen) capabilities.nvmSectorSize =
      true := decide_eq_true (Nat.not_le.mp long)
  simp only [writeLayout, tooLong, aligned, ne_eq, not_true_eq_false, decide_false, Bool.not_false,
    Bool.and_true, Bool.and_false, Bool.false_eq_true, if_true, if_false]
  rfl

/-- A longer pair in a buffer that is not aligned gets a buffer of the pool with a
sector for the header in front. -/
theorem writeLayout_unaligned {keyLen valueLen : Nat} {value : Memory} (positive : 0 < valueLen)
    (long : ¬fitsSector capabilities keyLen valueLen)
    (unaligned : value.address % capabilities.nvmSectorSize ≠ 0) :
    writeLayout capabilities keyLen value valueLen =
      { userBufferUsage := false
        valueOffset := capabilities.nvmSectorSize
        iovLen := roundedLen capabilities (capabilities.nvmSectorSize + valueLen)
        iovCount := vectorsAnnounced capabilities
          (roundedLen capabilities (capabilities.nvmSectorSize + valueLen)) } := by
  have tooLong : kvUseUserBuf (mKvHeaderSize + keyLen + valueLen) capabilities.nvmSectorSize =
      true := decide_eq_true (Nat.not_le.mp long)
  have more : capabilities.nvmSectorSize < capabilities.nvmSectorSize + valueLen := by omega
  simp only [writeLayout, tooLong, unaligned, ne_eq, not_false_eq_true, decide_true, Bool.not_true,
    Bool.and_false, Bool.and_self, Bool.false_eq_true, if_true, if_false, more, and_self,
    Nat.zero_add]
  rfl

/-- One sector takes one vector. -/
theorem vectorsFor_sector : vectorsFor capabilities capabilities.nvmSectorSize = 1 := by
  have positive := capabilities.sector_positive
  obtain ⟨limit, limitPositive, limited⟩ := maxWrite_sectors capabilities
  have atLeast : capabilities.nvmSectorSize ≤ capabilities.maxWriteSize := by
    rw [limited]
    exact Nat.le_mul_of_pos_left _ limitPositive
  unfold vectorsFor
  apply Nat.div_eq_of_lt_le <;> omega

/-- The vectors filled for a pair. -/
def vectorsFilled (capabilities : NvmKvStoreCapabilities) (layout : WriteLayout)
    (valueLen : Nat) : Nat :=
  if layout.userBufferUsage then 1 + vectorsFor capabilities (roundedLen capabilities valueLen)
  else 1

/-- The number of vectors is that of the vectors filled. -/
theorem pairIovec_length (layout : WriteLayout) (buf : Region) (value : Memory)
    (valueLen lba : Nat) :
    (pairIovec capabilities layout buf value valueLen lba).length =
      vectorsFilled capabilities layout valueLen := by
  unfold pairIovec vectorsFilled
  split
  · rw [List.length_cons, fillIovec_length _ _ _ _ _ le_rfl, Nat.add_comm]
    rfl
  · rw [fillIovec_length _ _ _ _ _ le_rfl, vectorsFor_sector]

/-- The sectors that the write vectors of a pair map. -/
def sectorsWritten (capabilities : NvmKvStoreCapabilities) (layout : WriteLayout)
    (valueLen : Nat) : Nat :=
  if layout.userBufferUsage then 1 + valueSectors capabilities valueLen else 1

/-- The media after the write vectors of a pair. -/
def pairWritten (capabilities : NvmKvStoreCapabilities) (layout : WriteLayout) (buf : Region)
    (value : Memory) (valueLen lba : Nat) (media : Media) : Media :=
  if layout.userBufferUsage then
    (media.write capabilities.nvmSectorSize lba 1 buf).write capabilities.nvmSectorSize (lba + 1)
      (valueSectors capabilities valueLen) value.bytes
  else
    media.write capabilities.nvmSectorSize lba 1 (buf.copy layout.valueOffset valueLen value.bytes)

/-- Applied as a batch they write the sectors of the pair. -/
theorem pairIovec_applied (layout : WriteLayout) (buf : Region) (value : Memory)
    {valueLen : Nat} (bounded : valueLen < 2 ^ 63) (lba : Nat) (media : Media) :
    media.applyBatch capabilities.nvmSectorSize
      (pairIovec capabilities layout buf value valueLen lba) =
      pairWritten capabilities layout buf value valueLen lba media := by
  have positive := capabilities.sector_positive
  have one : capabilities.nvmSectorSize / capabilities.nvmSectorSize = 1 := Nat.div_self positive
  unfold pairIovec pairWritten
  simp only
  split
  · have rounded : nvmKvRoundUptoBlk valueLen capabilities.nvmSectorSize =
        valueSectors capabilities valueLen * capabilities.nvmSectorSize :=
      roundedLen_eq valueLen bounded
    rw [Media.applyBatch_cons, Media.applyIovec, rounded, fillIovec_applied _ _ _ _ _ _ le_rfl]
    simp only [one, poolBuffer, Nat.zero_mul, Nat.add_zero, Region.drop_zero]
  · have filled := @fillIovec_applied capabilities
      (poolBuffer (buf.copy layout.valueOffset valueLen value.bytes)) lba
      capabilities.nvmSectorSize 1 0 media (by omega)
    simpa only [Nat.one_mul, Nat.zero_mul, Nat.add_zero, Region.drop_zero, poolBuffer]
      using filled

/-- The write vectors of a pair leave the sectors alone that they do not map. -/
theorem pairWritten_outside (layout : WriteLayout) (buf : Region) (value : Memory)
    {valueLen lba l : Nat} (media : Media)
    (outside : l < lba ∨ lba + sectorsWritten capabilities layout valueLen ≤ l) :
    pairWritten capabilities layout buf value valueLen lba media l = media l := by
  unfold pairWritten sectorsWritten at *
  split at outside
  · rename_i user
    rw [if_pos user, Media.write_outside (by omega), Media.write_outside (by omega)]
  · rename_i pool
    rw [if_neg pool, Media.write_outside (by omega)]

/-- The first sector of a pair is its buffer up to where the value starts. -/
theorem pairWritten_first (layout : WriteLayout) (buf : Region) (value : Memory)
    (valueLen lba : Nat) (media : Media) :
    pairWritten capabilities layout buf value valueLen lba media lba =
      some (if layout.userBufferUsage then buf
        else buf.copy layout.valueOffset valueLen value.bytes) := by
  unfold pairWritten
  split
  · rw [Media.write_outside (by omega), Media.write_inside ⟨le_rfl, by omega⟩, Nat.sub_self,
      Nat.zero_mul, Region.drop_zero]
  · rw [Media.write_inside ⟨le_rfl, by omega⟩, Nat.sub_self, Nat.zero_mul, Region.drop_zero]

end Nvmkv
