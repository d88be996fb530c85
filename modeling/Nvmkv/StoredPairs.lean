import Nvmkv.ProbeAddresses
import Nvmkv.WriteVectors

/-!
# Pairs on the media

Whether an address holds a key depends on its sector alone. This module says
what the sectors are after a put has handed its vectors to the device, or as
many of the prepared vectors as were announced: a sector is as it was, was
trimmed, or has the content that the complete batch gives it. It also says where
probe addresses can lie: those of one pool all have the pool's offset in their
slots, so that two of them are equal or at least a slot apart.
-/

namespace Nvmkv

variable {ι : Type} {store : NvmKvStore}

/-- Whether an address holds a key depends on its sector. -/
theorem holds_congr {media other : Media} {poolId : UInt32} {key : List UInt8} {lba : Nat}
    (short : key.length ≤ nvmKvMaxKeySize) (same : media lba = other lba) :
    holds store media poolId key lba = holds store other poolId key lba := by
  have room := header_fits_sector store
  apply headerMatches_congr
  intro i inside
  apply Media.read_congr
  rw [Nat.div_eq_of_lt (by omega), Nat.add_zero]
  exact same

/-- The header at an address depends on its sector. -/
theorem storedHeader_congr {media other : Media} {lba : Nat} (same : media lba = other lba) :
    storedHeader store media lba = storedHeader store other lba := by
  have room := header_fits_sector store
  apply readHeader_congr
  intro i inside
  apply Media.read_congr
  rw [Nat.div_eq_of_lt (by omega), Nat.add_zero]
  exact same

/-- An address with a known sector holds the keys that the sector matches. -/
theorem holds_sector {media : Media} {poolId : UInt32} {key : List UInt8} {lba : Nat}
    {sector : Region} (short : key.length ≤ nvmKvMaxKeySize) (stored : media lba = some sector) :
    holds store media poolId key lba = headerMatches sector poolId key := by
  have room := header_fits_sector store
  exact headerMatches_congr fun i inside => Media.read_sector stored (by omega)

/-- It is read from the start of the sector. -/
theorem storedHeader_sector {media : Media} {lba : Nat} {sector : Region}
    (stored : media lba = some sector) :
    storedHeader store media lba = readHeader sector := by
  have room := header_fits_sector store
  exact readHeader_congr fun i inside => Media.read_sector stored (by omega)

/-- An address that holds a key is mapped. -/
theorem mapped_of_holds {media : Media} {poolId : UInt32} {key : List UInt8} {lba : Nat}
    (nonempty : 0 < key.length) (held : holds store media poolId key lba = true) :
    media lba ≠ none := by
  intro unmapped
  rw [holds_unmapped nonempty unmapped] at held
  exact Bool.noConfusion held

/-- The pool offset of every probe address is that of its pool. -/
theorem probeLba_offset (store : NvmKvStore) (poolId : UInt32) {key : List UInt8} {i : Nat}
    (nonempty : key ≠ []) (probed : i < maxCollision) :
    store.probeLba poolId key i % 2 ^ store.valueBits =
      store.poolIdHash poolId % 2 ^ store.valueBits := by
  rw [NvmKvStore.probeLba_or nonempty probed, Nat.or_mod_two_pow, Nat.mul_mod_left, Nat.zero_or]

/-- A key has at least two addresses, the first probe in front. -/
theorem probes_head (store : NvmKvStore) (poolId : UInt32) (key : List UInt8) :
    ∃ later, store.probes poolId key =
      store.probeLba poolId key 0 :: store.probeLba poolId key 1 :: later := ⟨_, rfl⟩

/-- The addresses of a key are its probes. -/
theorem mem_probes {poolId : UInt32} {key : List UInt8} {lba : Nat} :
    lba ∈ store.probes poolId key ↔ ∃ i, i < maxCollision ∧ store.probeLba poolId key i = lba := by
  simp only [NvmKvStore.probes, List.mem_map, List.mem_range]

/-- Probe addresses of one pool are equal or at least a slot apart. -/
theorem probes_apart {poolId : UInt32} {key other : List UInt8} {a b : Nat}
    (nonempty : key ≠ []) (otherNonempty : other ≠ []) (left : a ∈ store.probes poolId key)
    (right : b ∈ store.probes poolId other) (near : a ≤ b) (inside : b < a + 2 ^ store.valueBits) :
    a = b := by
  obtain ⟨i, probedLeft, rfl⟩ := mem_probes.mp left
  obtain ⟨j, probedRight, rfl⟩ := mem_probes.mp right
  have offset := (probeLba_offset store poolId nonempty probedLeft).trans
    (probeLba_offset store poolId otherNonempty probedRight).symm
  have positive : 0 < 2 ^ store.valueBits := Nat.two_pow_pos _
  obtain ⟨gap, spread⟩ : 2 ^ store.valueBits ∣
      store.probeLba poolId other j - store.probeLba poolId key i :=
    Nat.dvd_of_mod_eq_zero (Nat.sub_mod_eq_zero_of_mod_eq offset.symm)
  rcases Nat.eq_zero_or_pos gap with none | some
  · rw [none, Nat.mul_zero] at spread
    omega
  · have := Nat.le_mul_of_pos_right (2 ^ store.valueBits) some
    omega

/-- A value of an accepted length leaves a sector of its slot for the header. -/
theorem valueSectors_lt_slot {valueLen : Nat} (bounded : valueLen ≤ nvmKvMaxValueSize) :
    valueSectors store.capabilities valueLen + 1 ≤ 2 ^ store.valueBits := by
  obtain ⟨product, lower, _⟩ := store.sector_value_bits
  have positive := store.sector_positive
  have covers := valueSectors_covers store.capabilities valueLen
  have limit : (nvmKvMaxValueSize : Nat) = 1047552 := rfl
  have range : mKvMaxValueRange = 2097152 := rfl
  have sector : store.sectorSize ≤ 2 ^ 12 := by
    obtain ⟨bits, _, upper, size⟩ := store.capabilities.sector_pow
    rw [NvmKvStore.sectorSize, size]
    exact Nat.pow_le_pow_right (by norm_num) upper
  change _ ∧ _ < _ + store.sectorSize at covers
  have bytes : (valueSectors store.capabilities valueLen + 1) * store.sectorSize <
      2 ^ store.valueBits * store.sectorSize := by
    rw [Nat.add_mul, Nat.one_mul, Nat.mul_comm (2 ^ store.valueBits), product]
    have upper : valueSectors store.capabilities valueLen * store.sectorSize <
      valueLen + store.sectorSize := covers.2
    omega
  exact Nat.le_of_lt (Nat.lt_of_mul_lt_mul_right bytes)

/-- A pair of accepted lengths stays within the sectors of one slot. -/
theorem sectorsWritten_le (layout : WriteLayout) {valueLen : Nat}
    (bounded : valueLen ≤ nvmKvMaxValueSize) :
    sectorsWritten store.capabilities layout valueLen ≤ 2 ^ store.valueBits := by
  have value := @valueSectors_lt_slot store valueLen bounded
  unfold sectorsWritten
  split <;> omega

namespace Media

/-- What a vector leaves at a sector that it covers. -/
def vectorContent (sectorSize : Nat) (iovec : NvmIovec) (l : Nat) : Option Region :=
  match iovec.iovOpcode with
  | .write => some (iovec.iovBase.bytes.drop ((l - iovec.iovLba) * sectorSize))
  | .trim => none

/-- What a vector leaves in a sector that it covers is its content, whatever was there. -/
theorem applyIovec_covered {media : Media} {sectorSize l : Nat} {iovec : NvmIovec}
    (covered : Covers sectorSize iovec l) :
    media.applyIovec sectorSize iovec l = vectorContent sectorSize iovec l := by
  cases opcode : iovec.iovOpcode with
  | write =>
    simp only [applyIovec, vectorContent, opcode]
    exact write_inside covered
  | trim =>
    simp only [applyIovec, vectorContent, opcode]
    exact trim_inside covered

/-- After a batch a sector is as it was, or as one of the vectors leaves it. -/
theorem applyBatch_cases (sectorSize : Nat) (iovec : List NvmIovec) (media : Media) (l : Nat) :
    media.applyBatch sectorSize iovec l = media l ∨
      ∃ vector, vector ∈ iovec ∧ Covers sectorSize vector l ∧
        media.applyBatch sectorSize iovec l = vectorContent sectorSize vector l := by
  induction iovec generalizing media with
  | nil => exact .inl rfl
  | cons vector rest inductionHypothesis =>
    rw [applyBatch_cons]
    rcases inductionHypothesis (media.applyIovec sectorSize vector) with same | later
    · by_cases covered : Covers sectorSize vector l
      · exact .inr ⟨vector, List.mem_cons_self, covered, same.trans (applyIovec_covered covered)⟩
      · exact .inl (same.trans (applyIovec_frame covered))
    · obtain ⟨other, member, covered, content⟩ := later
      exact .inr ⟨other, List.mem_cons_of_mem _ member, covered, content⟩

/-- A sector that some vector covers is as one of those that cover it leaves it. -/
theorem applyBatch_covered {sectorSize l : Nat} {iovec : List NvmIovec} {media : Media}
    (covered : ∃ vector ∈ iovec, Covers sectorSize vector l) :
    ∃ vector ∈ iovec, Covers sectorSize vector l ∧
      media.applyBatch sectorSize iovec l = vectorContent sectorSize vector l := by
  induction iovec generalizing media with
  | nil =>
    obtain ⟨_, absent, _⟩ := covered
    exact nomatch absent
  | cons vector rest inductionHypothesis =>
    rw [applyBatch_cons]
    by_cases later : ∃ other ∈ rest, Covers sectorSize other l
    · obtain ⟨other, member, covers, content⟩ :=
        @inductionHypothesis (media.applyIovec sectorSize vector) later
      exact ⟨other, List.mem_cons_of_mem _ member, covers, content⟩
    · obtain ⟨other, member, covers⟩ := covered
      rcases List.mem_cons.mp member with rfl | member
      · refine ⟨other, List.mem_cons_self, covers, ?_⟩
        rw [applyBatch_frame fun passed member covers => later ⟨passed, member, covers⟩]
        exact applyIovec_covered covers
      · exact absurd ⟨other, member, covers⟩ later

end Media

/-- A sector that one of some vectors writes or trims. -/
def BatchCovers (store : NvmKvStore) (iovec : List NvmIovec) (lba : Nat) : Prop :=
  ∃ vector ∈ iovec, Media.Covers store.sectorSize vector lba

/-- Whether a batch covers a sector can be computed. -/
instance (store : NvmKvStore) (iovec : List NvmIovec) (lba : Nat) :
    Decidable (BatchCovers store iovec lba) := List.decidableBEx _ _

/-- A batch changes only the sectors that it covers. -/
theorem applyBatch_uncovered {media : Media} {iovec : List NvmIovec} {lba : Nat}
    (uncovered : ¬BatchCovers store iovec lba) :
    media.applyBatch store.sectorSize iovec lba = media lba :=
  Media.applyBatch_frame fun vector member covers => uncovered ⟨vector, member, covers⟩

/-- A vector filled for whole sectors leaves at a sector what the whole run does. -/
theorem fillIovec_content {capabilities : NvmKvStoreCapabilities} (tempBuf : Memory)
    (keyHashVal : Nat) {vector : NvmIovec} {l : Nat} :
    ∀ fuel sectors count,
      vector ∈ fillIovec capabilities tempBuf keyHashVal fuel
        (sectors * capabilities.nvmSectorSize) count →
      Media.Covers capabilities.nvmSectorSize vector l →
      (keyHashVal + count * (capabilities.maxWriteSize / capabilities.nvmSectorSize) ≤ l ∧
        l < keyHashVal + count * (capabilities.maxWriteSize / capabilities.nvmSectorSize) +
          sectors) ∧
      Media.vectorContent capabilities.nvmSectorSize vector l =
        some (tempBuf.bytes.drop ((l - keyHashVal) * capabilities.nvmSectorSize)) := by
  have positive := capabilities.sector_positive
  obtain ⟨limit, limitPositive, limited⟩ := maxWrite_sectors capabilities
  have perVector : capabilities.maxWriteSize / capabilities.nvmSectorSize = limit := by
    rw [limited, Nat.mul_div_cancel _ positive]
  rw [perVector]
  intro fuel
  induction fuel with
  | zero =>
    intro sectors count member
    rw [fillIovec] at member
    exact absurd member List.not_mem_nil
  | succ fuel inductionHypothesis =>
    intro sectors count member covered
    rw [fillIovec] at member
    by_cases finished : sectors * capabilities.nvmSectorSize = 0
    · rw [if_pos finished] at member
      exact absurd member List.not_mem_nil
    · obtain ⟨step, stepped⟩ : ∃ step, step = min limit sectors := ⟨_, rfl⟩
      have size : (if sectors * capabilities.nvmSectorSize < capabilities.maxWriteSize
          then sectors * capabilities.nvmSectorSize else capabilities.maxWriteSize) =
          step * capabilities.nvmSectorSize := by
        rw [limited, lesser_sectors positive, stepped]
      have left : sectors * capabilities.nvmSectorSize - step * capabilities.nvmSectorSize =
          (sectors - step) * capabilities.nvmSectorSize := (Nat.sub_mul _ _ _).symm
      simp only [if_neg finished, size, perVector, left] at member
      rcases List.mem_cons.mp member with first | later
      · subst first
        have whole : step * capabilities.nvmSectorSize / capabilities.nvmSectorSize = step :=
          Nat.mul_div_cancel _ positive
        simp only [Media.Covers, whole] at covered
        refine ⟨by omega, ?_⟩
        simp only [Media.vectorContent, Region.drop_drop]
        have offset : count * capabilities.maxWriteSize +
            (l - (keyHashVal + count * limit)) * capabilities.nvmSectorSize =
            (l - keyHashVal) * capabilities.nvmSectorSize := by
          rw [limited, ← Nat.mul_assoc, ← Nat.add_mul]
          congr 1
          omega
        rw [offset]
      · obtain ⟨inside, content⟩ := inductionHypothesis (sectors - step) (count + 1) later covered
        have next : (count + 1) * limit = count * limit + limit := by
          rw [Nat.add_mul, Nat.one_mul]
        have full : sectors - step = 0 ∨ step = limit := by omega
        refine ⟨?_, content⟩
        rcases full with none | full <;> omega

/-- A write vector of a pair leaves at a sector what the whole pair does. -/
theorem pairIovec_content {capabilities : NvmKvStoreCapabilities} (layout : WriteLayout)
    (buf : Region) (value : Memory) {valueLen : Nat} (bounded : valueLen < 2 ^ 63) (lba : Nat)
    (media : Media) {vector : NvmIovec} {l : Nat}
    (member : vector ∈ pairIovec capabilities layout buf value valueLen lba)
    (covered : Media.Covers capabilities.nvmSectorSize vector l) :
    (lba ≤ l ∧ l < lba + sectorsWritten capabilities layout valueLen) ∧
      Media.vectorContent capabilities.nvmSectorSize vector l =
        pairWritten capabilities layout buf value valueLen lba media l := by
  have positive := capabilities.sector_positive
  have rounded : nvmKvRoundUptoBlk valueLen capabilities.nvmSectorSize =
      valueSectors capabilities valueLen * capabilities.nvmSectorSize :=
    roundedLen_eq valueLen bounded
  unfold pairIovec at member
  unfold pairWritten sectorsWritten
  by_cases user : layout.userBufferUsage = true
  · simp only [user, if_true, rounded] at member ⊢
    rcases List.mem_cons.mp member with header | rest
    · subst header
      have one : capabilities.nvmSectorSize / capabilities.nvmSectorSize = 1 :=
        Nat.div_self positive
      simp only [Media.Covers, one] at covered
      have here : l = lba := by omega
      subst here
      refine ⟨by omega, ?_⟩
      rw [Media.write_outside (by omega), Media.write_inside ⟨le_rfl, by omega⟩]
      rfl
    · obtain ⟨inside, content⟩ := fillIovec_content value (lba + 1) _ _ 0 rest covered
      simp only [Nat.zero_mul, Nat.add_zero] at inside
      refine ⟨by omega, ?_⟩
      rw [content, Media.write_inside inside]
  · simp only [user, if_false, Bool.false_eq_true] at member ⊢
    have sector : capabilities.nvmSectorSize = 1 * capabilities.nvmSectorSize :=
      (Nat.one_mul _).symm
    have single : vector ∈ fillIovec capabilities
        (poolBuffer (buf.copy layout.valueOffset valueLen value.bytes)) lba
        capabilities.nvmSectorSize (1 * capabilities.nvmSectorSize) 0 := by
      rwa [Nat.one_mul]
    obtain ⟨inside, content⟩ := fillIovec_content _ lba _ 1 0 single covered
    simp only [Nat.zero_mul, Nat.add_zero] at inside
    refine ⟨inside, ?_⟩
    rw [content, Media.write_inside inside]
    rfl

/-- The trim vector of a replaced value covers the sectors behind the new value.
The lengths are 32-bit numbers; a rounding that wraps is undone by the
subtraction. -/
theorem kvProcessForTrim_eq {capabilities : NvmKvStoreCapabilities} {valueLen trimLen lba : Nat}
    {trims : List NvmIovec} (some : 0 < valueLen) (bounded : valueLen ≤ nvmKvMaxValueSize)
    (word : trimLen < 2 ^ 32)
    (trimmed : kvProcessForTrim capabilities valueLen trimLen lba = .ok trims)
    (longer : trimLen = 0 ∨ valueLen < trimLen) :
    trims =
      if valueSectors capabilities valueLen < valueSectors capabilities trimLen then
        [⟨poolBuffer fun _ => 0,
          (valueSectors capabilities trimLen - valueSectors capabilities valueLen) *
            capabilities.nvmSectorSize,
          lba + valueSectors capabilities valueLen, .trim⟩]
      else [] := by
  have positive := capabilities.sector_positive
  have limit : (nvmKvMaxValueSize : Nat) = 1047552 := rfl
  obtain ⟨bits, _, upper, size⟩ := capabilities.sector_pow
  have small : capabilities.nvmSectorSize ≤ 2 ^ 12 := by
    rw [size]
    exact Nat.pow_le_pow_right (by norm_num) upper
  have words : 2 ^ 32 = 2 ^ (32 - bits) * capabilities.nvmSectorSize := by
    rw [size, ← Nat.pow_add]
    congr 1
    omega
  have new := valueSectors_covers capabilities valueLen
  have old := valueSectors_covers capabilities trimLen
  have roundedNew : nvmKvRoundUptoBlk valueLen capabilities.nvmSectorSize =
      valueSectors capabilities valueLen * capabilities.nvmSectorSize :=
    roundedLen_eq valueLen (by omega)
  have roundedOld : nvmKvRoundUptoBlk trimLen capabilities.nvmSectorSize =
      valueSectors capabilities trimLen * capabilities.nvmSectorSize :=
    roundedLen_eq trimLen (by omega)
  have noWrap : valueSectors capabilities valueLen * capabilities.nvmSectorSize % 2 ^ 32 =
      valueSectors capabilities valueLen * capabilities.nvmSectorSize :=
    Nat.mod_eq_of_lt (by omega)
  unfold kvProcessForTrim at trimmed
  split at trimmed
  · exact absurd trimmed (by simp)
  · split at trimmed
    · have order : valueSectors capabilities valueLen ≤ valueSectors capabilities trimLen :=
        Nat.div_le_div_right (by omega)
      have bytes := Nat.mul_le_mul_right capabilities.nvmSectorSize order
      have oldBounded : valueSectors capabilities trimLen * capabilities.nvmSectorSize ≤
          2 ^ 32 := by
        have next : valueSectors capabilities trimLen * capabilities.nvmSectorSize <
            (2 ^ (32 - bits) + 1) * capabilities.nvmSectorSize := by
          rw [Nat.add_mul, ← words, Nat.one_mul]
          omega
        rw [words]
        exact Nat.mul_le_mul_right _ (Nat.le_of_lt_succ (Nat.lt_of_mul_lt_mul_right next))
      have length : (valueSectors capabilities trimLen * capabilities.nvmSectorSize % 2 ^ 32 +
          2 ^ 32 - valueSectors capabilities valueLen * capabilities.nvmSectorSize) % 2 ^ 32 =
          (valueSectors capabilities trimLen - valueSectors capabilities valueLen) *
            capabilities.nvmSectorSize := by
        rw [Nat.sub_mul]
        omega
      simp only [roundedNew, roundedOld, noWrap, length, Nat.mul_div_cancel _ positive] at trimmed
      by_cases more : valueSectors capabilities valueLen < valueSectors capabilities trimLen
      · have nonzero : 0 < (valueSectors capabilities trimLen -
            valueSectors capabilities valueLen) * capabilities.nvmSectorSize :=
          Nat.mul_pos (by omega) positive
        rw [if_pos nonzero] at trimmed
        rw [if_pos more]
        exact (Except.ok.inj trimmed).symm
      · have zero : valueSectors capabilities trimLen - valueSectors capabilities valueLen = 0 := by
          omega
        rw [zero, Nat.zero_mul, if_neg (by omega)] at trimmed
        rw [if_neg more]
        exact (Except.ok.inj trimmed).symm
    · rename_i none
      have zero : trimLen = 0 := by omega
      have least : valueSectors capabilities 0 ≤ valueSectors capabilities valueLen :=
        Nat.div_le_div_right (by omega)
      rw [zero, if_neg (by omega)]
      exact (Except.ok.inj trimmed).symm

/-- The sectors behind the new value up to the end of a longer old one. -/
def TrimmedSector (capabilities : NvmKvStoreCapabilities) (valueLen trimLen lba l : Nat) : Prop :=
  lba + valueSectors capabilities valueLen ≤ l ∧ l < lba + valueSectors capabilities trimLen

/-- The trim vector of a put covers sectors from behind the new value to the end of the old one, and
leaves nothing in them. -/
theorem kvProcessForTrim_covers {capabilities : NvmKvStoreCapabilities}
    {valueLen trimLen lba l : Nat} {trims : List NvmIovec} {vector : NvmIovec}
    (some : 0 < valueLen) (bounded : valueLen ≤ nvmKvMaxValueSize) (word : trimLen < 2 ^ 32)
    (longer : trimLen = 0 ∨ valueLen < trimLen)
    (trimmed : kvProcessForTrim capabilities valueLen trimLen lba = .ok trims)
    (member : vector ∈ trims) (covered : Media.Covers capabilities.nvmSectorSize vector l) :
    TrimmedSector capabilities valueLen trimLen lba l ∧
      Media.vectorContent capabilities.nvmSectorSize vector l = none := by
  have positive := capabilities.sector_positive
  rw [kvProcessForTrim_eq some bounded word trimmed longer] at member
  split at member
  · rw [List.mem_singleton] at member
    subst member
    simp only [Media.Covers, Nat.mul_div_cancel _ positive] at covered
    refine ⟨?_, rfl⟩
    unfold TrimmedSector
    omega
  · exact absurd member List.not_mem_nil

/-- As many of the prepared vectors as were announced, when that is not more than
there are. -/
theorem handedIovec_take (memory : Nat → NvmIovec) (prepared : List NvmIovec) {count : Nat}
    (enough : count ≤ prepared.length) :
    handedIovec memory prepared count = prepared.take count := by
  apply List.ext_getElem
  · simp only [handedIovec, List.length_map, List.length_range, List.length_take]
    omega
  · intro i left right
    have inside : i < prepared.length := by
      simp only [List.length_take] at right
      omega
    simp only [handedIovec, List.getElem_map, List.getElem_range, List.getElem_take,
      List.getD_eq_getElem?_getD, List.getElem?_eq_getElem inside, Option.getD_some]

/-- The announced vectors of a pair are all filled. Otherwise the batch contains
vectors that nobody prepared. -/
def VectorsFilled (capabilities : NvmKvStoreCapabilities) (keyLen : Nat) (value : Memory)
    (valueLen : Nat) : Prop :=
  (writeLayout capabilities keyLen value valueLen).iovCount ≤
    vectorsFilled capabilities (writeLayout capabilities keyLen value valueLen) valueLen

/-- Whether the vectors are filled can be computed. -/
instance (capabilities : NvmKvStoreCapabilities) (keyLen : Nat) (value : Memory)
    (valueLen : Nat) : Decidable (VectorsFilled capabilities keyLen value valueLen) :=
  inferInstanceAs (Decidable (_ ≤ _))

/-- The layout that a put allocates for. -/
theorem layout_of_alloc {capabilities : NvmKvStoreCapabilities} {keyLen valueLen : Nat}
    {value : Memory} {buf : PoolBuf} {layout : WriteLayout} {unused : Region}
    (allocated : kvAllocForWrite capabilities keyLen value valueLen buf = .ok (layout, unused)) :
    layout = writeLayout capabilities keyLen value valueLen ∧
      layout.iovCount ≤ capabilities.nvmMaxNumIovs := by
  unfold kvAllocForWrite at allocated
  simp only at allocated
  split at allocated
  · exact absurd allocated (by simp)
  · rename_i few
    split at allocated
    · exact absurd allocated (by simp)
    · simp only [Except.ok.injEq, Prod.mk.injEq] at allocated
      obtain ⟨rfl, _⟩ := allocated
      exact ⟨rfl, by omega⟩

/-- What a put that wrote at an address left at a sector: what was there, nothing
because it was trimmed, or what the complete pair has there. -/
theorem put_sector {poolId : UInt32} {pair : NvmKvIovec} {layout : WriteLayout} {buf : Region}
    {memory : Nat → NvmIovec} {trims : List NvmIovec} {clock lba trimLen : Nat} (media : Media)
    (positive : 0 < pair.valueLen) (bounded : pair.valueLen ≤ nvmKvMaxValueSize)
    (word : trimLen < 2 ^ 32) (longer : trimLen = 0 ∨ pair.valueLen < trimLen)
    (trimmed : kvProcessForTrim store.capabilities pair.valueLen trimLen lba = .ok trims)
    (filled : layout.iovCount ≤ vectorsFilled store.capabilities layout pair.valueLen) (l : Nat) :
    let after := media.applyBatch store.sectorSize (handedIovec memory
      (trims ++ putIovec store poolId pair layout buf clock lba) layout.iovCount)
    after l = media l ∨
      (TrimmedSector store.capabilities pair.valueLen trimLen lba l ∧ after l = none) ∨
      ((lba ≤ l ∧ l < lba + sectorsWritten store.capabilities layout pair.valueLen) ∧
        after l = pairWritten store.capabilities layout
          (putHeader store poolId pair layout buf clock) pair.value pair.valueLen lba media l) := by
  have limit : (nvmKvMaxValueSize : Nat) = 1047552 := rfl
  have enough : layout.iovCount ≤
      (trims ++ putIovec store poolId pair layout buf clock lba).length := by
    rw [List.length_append, putIovec, pairIovec_length]
    omega
  simp only [handedIovec_take memory _ enough]
  rcases Media.applyBatch_cases store.sectorSize ((trims ++ putIovec store poolId pair layout buf
    clock lba).take layout.iovCount) media l with same | ⟨vector, taken, covered, content⟩
  · exact .inl same
  · rcases List.mem_append.mp (List.mem_of_mem_take taken) with trim | write
    · obtain ⟨sector, none⟩ := kvProcessForTrim_covers positive bounded word longer trimmed trim
        covered
      exact .inr (.inl ⟨sector, content.trans none⟩)
    · obtain ⟨inside, written⟩ := pairIovec_content layout _ pair.value (by omega) lba media write
        covered
      exact .inr (.inr ⟨inside, content.trans written⟩)

/-- An address lies in the slot that starts at another one. -/
def NvmKvStore.InSlot (store : NvmKvStore) (lba l : Nat) : Prop :=
  lba ≤ l ∧ l < lba + 2 ^ store.valueBits

/-- A trim vector starts behind the sectors of the new value. -/
theorem kvProcessForTrim_starts {capabilities : NvmKvStoreCapabilities}
    {valueLen trimLen lba : Nat} {trims : List NvmIovec} {vector : NvmIovec}
    (bounded : valueLen ≤ nvmKvMaxValueSize)
    (trimmed : kvProcessForTrim capabilities valueLen trimLen lba = .ok trims)
    (member : vector ∈ trims) :
    vector.iovLba = lba + valueSectors capabilities valueLen ∧ vector.iovOpcode = .trim := by
  have sector := capabilities.sector_positive
  have limit : (nvmKvMaxValueSize : Nat) = 1047552 := rfl
  obtain ⟨bits, _, upper, size⟩ := capabilities.sector_pow
  have small : capabilities.nvmSectorSize ≤ 2 ^ 12 := by
    rw [size]
    exact Nat.pow_le_pow_right (by norm_num) upper
  have covers := (valueSectors_covers capabilities valueLen).2
  have rounded : nvmKvRoundUptoBlk valueLen capabilities.nvmSectorSize % 2 ^ 32 /
      capabilities.nvmSectorSize = valueSectors capabilities valueLen := by
    have whole : nvmKvRoundUptoBlk valueLen capabilities.nvmSectorSize =
        valueSectors capabilities valueLen * capabilities.nvmSectorSize :=
      roundedLen_eq valueLen (by omega)
    rw [whole, Nat.mod_eq_of_lt (by omega), Nat.mul_div_cancel _ sector]
  simp only [kvProcessForTrim, rounded] at trimmed
  split_ifs at trimmed
  · obtain rfl := Except.ok.inj trimmed
    rw [List.mem_singleton.mp member]
    exact ⟨rfl, rfl⟩
  · obtain rfl := Except.ok.inj trimmed
    exact nomatch member
  · obtain rfl := Except.ok.inj trimmed
    exact nomatch member

/-- The first write vector of a pair starts at the address of the pair and covers it. -/
theorem pairIovec_first (capabilities : NvmKvStoreCapabilities) (layout : WriteLayout)
    (buf : Region) (value : Memory) (valueLen lba : Nat) :
    ∃ first rest, pairIovec capabilities layout buf value valueLen lba = first :: rest ∧
      first.iovLba = lba ∧ first.iovOpcode = .write ∧
      Media.Covers capabilities.nvmSectorSize first lba := by
  have sector := capabilities.sector_positive
  unfold pairIovec
  dsimp only
  split_ifs
  · refine ⟨_, _, rfl, rfl, rfl, le_rfl, ?_⟩
    rw [Nat.div_self sector]
    exact Nat.lt_succ_self _
  · obtain ⟨limit, limitPositive, limited⟩ := maxWrite_sectors capabilities
    obtain ⟨rounds, sized⟩ : ∃ rounds, capabilities.nvmSectorSize = rounds + 1 :=
      Nat.exists_eq_succ_of_ne_zero (Nat.ne_of_gt sector)
    have one : (if capabilities.nvmSectorSize < capabilities.maxWriteSize then
        capabilities.nvmSectorSize else capabilities.maxWriteSize) =
          capabilities.nvmSectorSize := by
      have least := Nat.le_mul_of_pos_left capabilities.nvmSectorSize limitPositive
      split_ifs <;> omega
    have filled : ∀ tempBuf fuel, fuel = rounds + 1 → ∃ first rest,
        fillIovec capabilities tempBuf lba fuel capabilities.nvmSectorSize 0 = first :: rest ∧
          first.iovLba = lba ∧ first.iovOpcode = .write ∧
          Media.Covers capabilities.nvmSectorSize first lba := by
      rintro tempBuf fuel rfl
      rw [fillIovec, if_neg (Nat.ne_of_gt sector)]
      have here : lba + 0 * (capabilities.maxWriteSize / capabilities.nvmSectorSize) = lba := by
        rw [Nat.zero_mul, Nat.add_zero]
      refine ⟨_, _, rfl, here, rfl, ?_⟩
      simp only [Media.Covers, one, Nat.zero_mul, Nat.add_zero, Nat.div_self sector]
      omega
    exact filled _ _ sized

end Nvmkv
