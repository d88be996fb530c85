import Nvmkv.StoredPairs

/-!
# Reading back what was put

A put that handed over all its write vectors, and no trim vector, leaves the
complete pair at its address, and a lookup of the key then ends there: the
addresses before it were passed over by the put for the same reason, and the
written sectors cannot reach another address of the key. `get_after_put` turns
this into the bytes that `kv_get` delivers. Whether the value lies behind its key
or in sectors of its own, they are the bytes that were put.
-/

namespace Nvmkv

variable {ι : Type} {store : NvmKvStore}

/-- The addresses before the one where a search ends were mapped and held other
keys; the one where it ends is free or holds the key. -/
theorem place_target {clock valueLen lba trimLen : Nat} {media : Media} {poolId : UInt32}
    {key : List UInt8} {replace : Bool} {lbas : List Nat}
    (placed : (place store clock media poolId key replace lbas).target store media valueLen =
      some (lba, trimLen)) :
    ∃ earlier later, lbas = earlier ++ lba :: later ∧
      (∀ passed, passed ∈ earlier → windowFree store media passed = false ∧
        holds store media poolId key passed = false) ∧
      (windowFree store media lba = true ∧ trimLen = 0 ∨
        windowFree store media lba = false ∧ holds store media poolId key lba = true ∧
        (trimLen = 0 ∨ trimLen = replacedLen (storedHeader store media lba) valueLen)) := by
  induction lbas with
  | nil => exact absurd placed (by simp [place, Place.target])
  | cons next rest inductionHypothesis =>
    simp only [place] at placed
    cases free : windowFree store media next with
    | true =>
      simp only [free, if_true, Place.target, Option.some.injEq, Prod.mk.injEq] at placed
      obtain ⟨rfl, rfl⟩ := placed
      exact ⟨[], rest, rfl, fun _ member => absurd member List.not_mem_nil, .inl ⟨free, rfl⟩⟩
    | false =>
      simp only [free, Bool.false_eq_true, if_false] at placed
      cases held : holds store media poolId key next with
      | true =>
        simp only [held, if_true] at placed
        refine ⟨[], rest, ?_, fun _ member => absurd member List.not_mem_nil, .inr ?_⟩
        · split at placed
          · simp only [Place.target, Option.some.injEq, Prod.mk.injEq] at placed
            rw [placed.1, List.nil_append]
          · split at placed
            · simp only [Place.target, Option.some.injEq, Prod.mk.injEq] at placed
              rw [placed.1, List.nil_append]
            · exact absurd placed (by simp [Place.target])
        · split at placed
          · simp only [Place.target, Option.some.injEq, Prod.mk.injEq] at placed
            obtain ⟨rfl, rfl⟩ := placed
            exact ⟨free, held, .inl rfl⟩
          · split at placed
            · simp only [Place.target, Option.some.injEq, Prod.mk.injEq] at placed
              obtain ⟨rfl, rfl⟩ := placed
              exact ⟨free, held, .inr rfl⟩
            · exact absurd placed (by simp [Place.target])
      | false =>
        simp only [held, Bool.false_eq_true, if_false] at placed
        obtain ⟨earlier, later, split, passedOver, ended⟩ := inductionHypothesis placed
        refine ⟨next :: earlier, later, by rw [split, List.cons_append], ?_, ended⟩
        intro passed member
        rcases List.mem_cons.mp member with here | before
        · subst here
          exact ⟨free, held⟩
        · exact passedOver passed before

/-- The sector at the start of a put pair. -/
def firstSector (store : NvmKvStore) (poolId : UInt32) (pair : NvmKvIovec) (layout : WriteLayout)
    (buf : Region) (clock : Nat) : Region :=
  if layout.userBufferUsage then putHeader store poolId pair layout buf clock
  else (putHeader store poolId pair layout buf clock).copy layout.valueOffset pair.valueLen
    pair.value.bytes

/-- The value starts behind the header and the key. -/
theorem valueOffset_behind (keyLen : Nat) (value : Memory) (valueLen : Nat)
    (short : keyLen ≤ nvmKvMaxKeySize) :
    mKvHeaderSize + keyLen ≤
      (writeLayout store.capabilities keyLen value valueLen).valueOffset := by
  have room := header_fits_sector store
  change mKvHeaderSize + nvmKvMaxKeySize ≤ store.capabilities.nvmSectorSize at room
  unfold writeLayout
  simp only
  split_ifs <;> omega

/-- Copying the value into the buffer does not touch the header and the key. -/
theorem firstSector_header {poolId : UInt32} {pair : NvmKvIovec} {buf : Region} {clock : Nat}
    (short : pair.key.length ≤ nvmKvMaxKeySize) {i : Nat}
    (inside : i < mKvHeaderSize + pair.key.length) :
    firstSector store poolId pair
      (writeLayout store.capabilities pair.key.length pair.value pair.valueLen) buf clock i =
    putHeader store poolId pair
      (writeLayout store.capabilities pair.key.length pair.value pair.valueLen) buf clock i := by
  have behind := @valueOffset_behind store pair.key.length pair.value pair.valueLen short
  unfold firstSector
  split
  · rfl
  · exact Region.copy_outside _ _ (.inl (by omega))

/-- The first sector of a put pair matches the key of the pair and no other one. -/
theorem headerMatches_firstSector {poolId other : UInt32} {pair : NvmKvIovec}
    {key : List UInt8} {buf : Region} {clock : Nat}
    (short : pair.key.length ≤ nvmKvMaxKeySize) (keyShort : key.length ≤ nvmKvMaxKeySize) :
    headerMatches (firstSector store poolId pair
      (writeLayout store.capabilities pair.key.length pair.value pair.valueLen) buf clock)
      other key = decide (poolId = other ∧ pair.key = key) := by
  set sector := firstSector store poolId pair
    (writeLayout store.capabilities pair.key.length pair.value pair.valueLen) buf clock
  have own : headerMatches sector poolId pair.key = true := by
    rw [headerMatches_congr fun i inside => firstSector_header short inside, putHeader,
      headerMatches_writeHeader _ _ _ _ _ _ _ _ _ short]
    simp
  by_cases same : poolId = other ∧ pair.key = key
  · obtain ⟨rfl, rfl⟩ := same
    simpa using own
  · rw [decide_eq_false same, Bool.eq_false_iff]
    intro matched
    exact same (headerMatches_unique own matched)

/-- The header of a put pair. -/
theorem readHeader_firstSector {poolId : UInt32} {pair : NvmKvIovec} {buf : Region} {clock : Nat}
    (short : pair.key.length ≤ nvmKvMaxKeySize) (bounded : pair.valueLen ≤ nvmKvMaxValueSize) :
    let layout := writeLayout store.capabilities pair.key.length pair.value pair.valueLen
    let hdr := readHeader (firstSector store poolId pair layout buf clock)
    hdr.valueLen = pair.valueLen ∧ hdr.valueOffset = layout.valueOffset ∧
      hdr.expiry = absoluteExpiry (putExpiry store pair) clock % 2 ^ 32 := by
  have room := header_fits_sector store
  have limit : (nvmKvMaxValueSize : Nat) = 1047552 := rfl
  have keyLimit : (nvmKvMaxKeySize : Nat) = 128 := rfl
  have headerSize : mKvHeaderSize = 40 := rfl
  have offset : (writeLayout store.capabilities pair.key.length pair.value
      pair.valueLen).valueOffset < 2 ^ 32 := by
    obtain ⟨bits, _, upper, size⟩ := store.capabilities.sector_pow
    have small : store.capabilities.nvmSectorSize ≤ 2 ^ 12 := by
      rw [size]
      exact Nat.pow_le_pow_right (by norm_num) upper
    unfold writeLayout
    simp only
    split_ifs <;> omega
  simp only
  rw [readHeader_congr fun i inside => firstSector_header short (by omega), putHeader,
    readHeader_writeHeader]
  exact ⟨Nat.mod_eq_of_lt (by omega), Nat.mod_eq_of_lt offset, rfl⟩

/-- The generation count is kept as the 32-bit number it is. -/
theorem genCount_firstSector {poolId : UInt32} {pair : NvmKvIovec} {buf : Region} {clock : Nat}
    (short : pair.key.length ≤ nvmKvMaxKeySize) :
    (readHeader (firstSector store poolId pair
      (writeLayout store.capabilities pair.key.length pair.value pair.valueLen) buf
      clock)).genCount = pair.genCount % 2 ^ 32 := by
  rw [readHeader_congr fun i inside => firstSector_header short (by omega), putHeader,
    readHeader_writeHeader]

/-- Whether a pair put at a time has expired at this very time: its expiry date is
a 32-bit number and may have wrapped. -/
def expiresAtOnce (store : NvmKvStore) (pair : NvmKvIovec) (clock : Nat) : Bool :=
  store.expiryMode ≠ .disableExpiry ∧
    absoluteExpiry (putExpiry store pair) clock % 2 ^ 32 < clock % 2 ^ 32 ∧
    absoluteExpiry (putExpiry store pair) clock % 2 ^ 32 ≠ 0

/-- A complete pair lies at an address. -/
def CompletePair (store : NvmKvStore) (poolId : UInt32) (pair : NvmKvIovec) (buf : Region)
    (clock lba : Nat) (media : Media) : Prop :=
  ∀ l, lba ≤ l → l < lba + sectorsWritten store.capabilities
      (writeLayout store.capabilities pair.key.length pair.value pair.valueLen) pair.valueLen →
    media l = pairWritten store.capabilities
      (writeLayout store.capabilities pair.key.length pair.value pair.valueLen)
      (putHeader store poolId pair
        (writeLayout store.capabilities pair.key.length pair.value pair.valueLen) buf clock)
      pair.value pair.valueLen lba media l

/-- The first sector of a complete pair is its own. -/
theorem CompletePair.first {poolId : UInt32} {pair : NvmKvIovec} {buf : Region}
    {clock lba : Nat} {media : Media}
    (complete : CompletePair store poolId pair buf clock lba media) :
    media lba = some (firstSector store poolId pair
      (writeLayout store.capabilities pair.key.length pair.value pair.valueLen) buf clock) := by
  have some : 0 < sectorsWritten store.capabilities
      (writeLayout store.capabilities pair.key.length pair.value pair.valueLen)
      pair.valueLen := by
    unfold sectorsWritten
    split <;> omega
  rw [complete lba le_rfl (by omega), pairWritten_first]
  rfl

/-- A complete pair is found by its key. -/
theorem CompletePair.held {poolId : UInt32} {pair : NvmKvIovec} {buf : Region}
    {clock lba : Nat} {media : Media}
    (complete : CompletePair store poolId pair buf clock lba media)
    (short : pair.key.length ≤ nvmKvMaxKeySize) :
    holds store media poolId pair.key lba = true := by
  rw [holds_sector short complete.first, headerMatches_firstSector short short]
  exact decide_eq_true ⟨rfl, rfl⟩

/-- The lengths of a reading take in a value of the given length. -/
def ReadsValue (buffers : ReadBuffers) (valueLen : Nat) : Prop :=
  buffers.numIovs = 2 ∧ valueLen ≤ buffers.valueIovLen

/-- A run of mapped sectors that is longer than a value does not cut its reading short. A rest of no
sectors has no room for the value. -/
theorem readsValue_roundLimits {media : Media} {valueLen length lba : Nat} {readExact : Bool}
    {buffers : ReadBuffers} (positive : 0 < length) (reads : ReadsValue buffers length)
    (long : readExact = true → valueLen ≠ 0 → valueSectors store.capabilities length <
      (media.rangeExists ⟨lba, store.maxSearchRange⟩).length) :
    ReadsValue (roundLimits store media valueLen readExact lba buffers) length := by
  unfold roundLimits
  split
  · rename_i exact
    have longer := long exact.1 exact.2
    have window := @Media.rangeExists_length_le media ⟨lba, store.maxSearchRange⟩
    obtain ⟨product, _, _⟩ := store.sector_value_bits
    have covers : length ≤ valueSectors store.capabilities length * store.sectorSize :=
      (valueSectors_covers store.capabilities length).1
    have words : 2 ^ store.valueBits * store.sectorSize < 2 ^ 32 := by
      rw [Nat.mul_comm, product]
      decide
    generalize media.rangeExists ⟨lba, store.maxSearchRange⟩ = run at *
    simp only [NvmKvStore.maxSearchRange_eq] at window
    have bytes : run.length * store.sectorSize ≤ 2 ^ store.valueBits * store.sectorSize :=
      Nat.mul_le_mul_right _ window
    have behind : (valueSectors store.capabilities length + 1) * store.sectorSize ≤
        run.length * store.sectorSize := Nat.mul_le_mul_right _ longer
    rw [Nat.add_mul, Nat.one_mul] at behind
    have word : (run.length * store.sectorSize - store.sectorSize) % 2 ^ 32 =
        run.length * store.sectorSize - store.sectorSize := Nat.mod_eq_of_lt (by omega)
    obtain ⟨double, inside⟩ := reads
    simp only [limitRead, word]
    split
    · split
      · exact ⟨double, by simp only; omega⟩
      · exact ⟨double, inside⟩
    · omega
  · exact reads

/-- No window on the way has a first run that is too short for the value. -/
def RunsReach (store : NvmKvStore) (media : Media) (valueLen : Nat) (lbas : List Nat) : Prop :=
  ∀ lba, lba ∈ lbas → windowFree store media lba = false →
    valueSectors store.capabilities valueLen <
      (media.rangeExists ⟨lba, store.maxSearchRange⟩).length

/-- The last round of a reading takes in the whole value when no window on the way
has cut the reading short: the lengths are kept from round to round. -/
theorem readRounds_reads {media : Media} {poolId : UInt32} {key : List UInt8}
    {valueLen length lba : Nat} {readExact : Bool} {earlier later : List Nat}
    {buffers : ReadBuffers} (nonempty : 0 < key.length) (positive : 0 < length)
    (missed : ∀ passed, passed ∈ earlier → holds store media poolId key passed = false)
    (held : holds store media poolId key lba = true) (reads : ReadsValue buffers length)
    (reach : readExact = true → RunsReach store media length (earlier ++ [lba])) :
    ∃ before, readRounds store media poolId key valueLen readExact (earlier ++ lba :: later)
        buffers = readSlot store media lba before ∧ ReadsValue before length := by
  induction earlier generalizing buffers with
  | nil =>
    have mapped : windowFree store media lba = false := by
      rw [Bool.eq_false_iff]
      intro free
      rw [holds_free nonempty free] at held
      exact Bool.noConfusion held
    refine ⟨roundLimits store media valueLen readExact lba buffers, ?_, ?_⟩
    · simp only [List.nil_append, readRounds, readRound, mapped, held, Bool.false_eq_true,
        and_false, if_false, if_true]
    · exact readsValue_roundLimits positive reads
        fun exact _ => reach exact lba (List.mem_singleton_self lba) mapped
  | cons passed rest inductionHypothesis =>
    simp only [List.cons_append, readRounds, missed passed List.mem_cons_self,
      Bool.false_eq_true, if_false]
    apply inductionHypothesis
    · exact fun next member => missed next (List.mem_cons_of_mem _ member)
    · unfold readRound
      split
      · exact reads
      · rename_i visited
        apply readsValue_roundLimits positive reads
        intro exact asks
        refine reach exact passed List.mem_cons_self ?_
        exact Bool.eq_false_iff.mpr fun free => visited ⟨⟨exact, asks⟩, free⟩
    · exact fun exact next member => reach exact next (List.mem_cons_of_mem _ member)

/-- The value of a key lies at an address: behind the key in the header's sector, or in
mapped sectors of its own behind that one. -/
structure StoredValue (store : NvmKvStore) (media : Media) (poolId : UInt32) (key : List UInt8)
    (lba valueLen : Nat) (bytes : Region) : Prop where
  held : holds store media poolId key lba = true
  length : (storedHeader store media lba).valueLen = valueLen
  placed : (storedHeader store media lba).valueOffset < store.sectorSize ∧
      (storedHeader store media lba).valueOffset + valueLen ≤ store.sectorSize ∨
    (storedHeader store media lba).valueOffset = store.sectorSize ∧
      ∀ i, i < 1 + valueSectors store.capabilities valueLen → (media (lba + i)).isSome
  value : ∀ i, i < valueLen → media.read store.sectorSize lba
    ((storedHeader store media lba).valueOffset + i) = bytes i

/-- The bytes that `kv_get` delivers are those stored, whether they lie behind the key or
were read into the caller's buffer. -/
theorem StoredValue.got {poolId : UInt32} {key : List UInt8} {lba valueLen : Nat} {bytes : Region}
    {media : Media} {before : ReadBuffers}
    (stored : StoredValue store media poolId key lba valueLen bytes)
    (reads : (storedHeader store media lba).valueOffset < store.sectorSize ∨
      ReadsValue before valueLen) :
    (gotValue store media (readSlot store media lba before) lba).slice 0 valueLen =
      bytes.slice 0 valueLen := by
  apply Region.slice_congr
  intro i _ inside
  rw [Nat.zero_add] at inside
  rw [← stored.value i inside]
  rcases stored.placed with ⟨near, room⟩ | ⟨behind, _⟩
  · simp only [gotValue, stored.length, if_pos near, readSlot]
    rw [Region.copy_inside _ _ ⟨Nat.zero_le i, by omega⟩, Nat.sub_zero, Region.drop,
      slotBuffer_inside store media before.buf lba (by omega)]
  · have far : ¬(storedHeader store media lba).valueOffset < store.sectorSize := by omega
    obtain ⟨double, enough⟩ := reads.resolve_left far
    simp only [gotValue, behind, lt_irrefl, if_false, readSlot, readValue, double, if_true]
    rw [Region.copy_inside _ _ ⟨Nat.zero_le i, by omega⟩, Nat.sub_zero, Region.drop]

/-- The sectors of a written pair are mapped. -/
theorem pairWritten_mapped {capabilities : NvmKvStoreCapabilities} (layout : WriteLayout)
    (buf : Region) (value : Memory) {valueLen lba l : Nat} (media : Media)
    (inside : lba ≤ l ∧ l < lba + sectorsWritten capabilities layout valueLen) :
    (pairWritten capabilities layout buf value valueLen lba media l).isSome := by
  unfold pairWritten sectorsWritten at *
  by_cases user : layout.userBufferUsage = true
  · rw [if_pos user] at inside ⊢
    by_cases header : l = lba
    · rw [Media.write_outside (by omega), Media.write_inside (by omega)]
      rfl
    · rw [Media.write_inside (by omega)]
      rfl
  · rw [if_neg user] at inside ⊢
    rw [Media.write_inside inside]
    rfl

/-- What a pair has at one of its sectors does not depend on what was there. -/
theorem pairWritten_congr {capabilities : NvmKvStoreCapabilities} (layout : WriteLayout)
    (buf : Region) (value : Memory) {valueLen lba l : Nat} (media other : Media)
    (inside : lba ≤ l ∧ l < lba + sectorsWritten capabilities layout valueLen) :
    pairWritten capabilities layout buf value valueLen lba media l =
      pairWritten capabilities layout buf value valueLen lba other l := by
  unfold pairWritten sectorsWritten at *
  by_cases user : layout.userBufferUsage = true
  · simp only [if_pos user] at inside ⊢
    by_cases header : l = lba
    · rw [Media.write_outside (by omega), Media.write_inside (by omega),
        Media.write_outside (by omega), Media.write_inside (by omega)]
    · rw [Media.write_inside (by omega), Media.write_inside (by omega)]
  · simp only [if_neg user] at inside ⊢
    rw [Media.write_inside inside, Media.write_inside inside]

/-- The byte of a value that has sectors of its own lies in one of them. -/
theorem read_behind {media : Media} {lba i : Nat} {sector : Region}
    (content : media (lba + 1 + i / store.sectorSize) = some sector) :
    media.read store.sectorSize lba (store.sectorSize + i) = sector (i % store.sectorSize) := by
  have quotient : (store.sectorSize + i) / store.sectorSize = 1 + i / store.sectorSize := by
    rw [Nat.add_comm, Nat.add_div_right _ store.sector_positive, Nat.add_comm]
  simp only [Media.read, quotient, Nat.add_mod_left, ← Nat.add_assoc, content]

/-- The value of a complete pair is stored. -/
theorem CompletePair.stored {poolId : UInt32} {pair : NvmKvIovec} {buf : Region}
    {clock lba : Nat} {media : Media}
    (complete : CompletePair store poolId pair buf clock lba media)
    (short : pair.key.length ≤ nvmKvMaxKeySize) (positive : 0 < pair.valueLen)
    (bounded : pair.valueLen ≤ nvmKvMaxValueSize)
    (layout : fitsSector store.capabilities pair.key.length pair.valueLen ∨
      pair.value.address % store.sectorSize = 0) :
    StoredValue store media poolId pair.key lba pair.valueLen pair.value.bytes := by
  have first := complete.first
  have header := @storedHeader_sector store _ _ _ first
  obtain ⟨length, offset, _⟩ :=
    @readHeader_firstSector store poolId pair buf clock short bounded
  refine ⟨complete.held short, by rw [header, length], ?_, ?_⟩ <;> rw [header, offset]
  · by_cases fits : fitsSector store.capabilities pair.key.length pair.valueLen
    · left
      have sector : mKvHeaderSize + pair.key.length + pair.valueLen ≤ store.sectorSize := fits
      rw [writeLayout_fits pair.value fits]
      exact ⟨by dsimp only; omega, sector⟩
    · right
      have written := writeLayout_aligned fits (layout.resolve_left fits)
      refine ⟨by rw [written]; rfl, ?_⟩
      intro i inside
      have sectors : sectorsWritten store.capabilities (writeLayout store.capabilities
          pair.key.length pair.value pair.valueLen) pair.valueLen =
          1 + valueSectors store.capabilities pair.valueLen := by
        rw [written]
        rfl
      rw [complete (lba + i) (by omega) (by omega)]
      exact pairWritten_mapped _ _ _ _ (by omega)
  · intro i inside
    by_cases fits : fitsSector store.capabilities pair.key.length pair.valueLen
    · have written := writeLayout_fits pair.value fits
      have sector : mKvHeaderSize + pair.key.length + pair.valueLen ≤ store.sectorSize := fits
      rw [written] at first ⊢
      dsimp only
      rw [Media.read_sector first (by omega)]
      simp only [firstSector, Bool.false_eq_true, if_false]
      rw [Region.copy_inside _ _ ⟨by omega, by omega⟩, Nat.add_sub_cancel_left]
    · have written := writeLayout_aligned fits (layout.resolve_left fits)
      have positive := store.sector_positive
      have own : pair.valueLen ≤
          valueSectors store.capabilities pair.valueLen * store.sectorSize :=
        (valueSectors_covers store.capabilities pair.valueLen).1
      have sectors : sectorsWritten store.capabilities (writeLayout store.capabilities
          pair.key.length pair.value pair.valueLen) pair.valueLen =
          1 + valueSectors store.capabilities pair.valueLen := by
        rw [written]
        rfl
      obtain ⟨sector, index⟩ : ∃ sector, i / store.sectorSize = sector := ⟨_, rfl⟩
      have place : sector < valueSectors store.capabilities pair.valueLen := by
        rw [← index, Nat.div_lt_iff_lt_mul positive]
        omega
      have content : media (lba + 1 + i / store.sectorSize) =
          some (pair.value.bytes.drop (i / store.sectorSize * store.sectorSize)) := by
        rw [index, complete _ (by omega) (by omega)]
        simp only [pairWritten, written, if_true]
        rw [Media.write_inside ⟨by omega, by omega⟩, Nat.add_sub_cancel_left]
        rfl
      have valueOffset : (writeLayout store.capabilities pair.key.length pair.value
          pair.valueLen).valueOffset = store.sectorSize := by
        rw [written]
        rfl
      rw [valueOffset, read_behind content, Region.drop]
      congr 1
      rw [Nat.mul_comm]
      exact Nat.div_add_mod i store.sectorSize

/-- A lookup ends at an address when none before it holds the key. -/
theorem lookupLba_split {media : Media} {poolId : UInt32} {key : List UInt8} {lba : Nat}
    {earlier later : List Nat} (split : store.probes poolId key = earlier ++ lba :: later)
    (missed : ∀ passed, passed ∈ earlier → holds store media poolId key passed = false)
    (held : holds store media poolId key lba = true) :
    lookupLba store media poolId key = some lba := by
  rw [lookupLba, List.find?_eq_some_iff_append]
  refine ⟨held, earlier, later, split, ?_⟩
  intro passed member
  rw [missed passed member]
  rfl

/-- Getting a key whose first pair has its value stored and has not expired delivers the
value and its length, unless an exact reading was cut short on its way. -/
theorem run_kvGet_stored (thread : ι) {state : StoreState ι} {poolId : UInt32}
    {key : List UInt8} {bytes readBuf : Region} {lba length valueLen : Nat} {value : Memory}
    {readExact : Bool} {earlier later : List Nat}
    (accepted : keyAccepted state poolId key = true) (positive : 0 < length)
    (bounded : length ≤ nvmKvMaxValueSize)
    (stored : StoredValue store state.media poolId key lba length bytes)
    (split : store.probes poolId key = earlier ++ lba :: later)
    (missed : ∀ passed, passed ∈ earlier → holds store state.media poolId key passed = false)
    (unexpired : pairExpired store state.clock (storedHeader store state.media lba) = false)
    (valid : kvValidateValue store true valueLen = true)
    (readable : Readable store (getBuffers store value valueLen readBuf))
    (room : length ≤ valueLen)
    (reach : readExact = true →
      (storedHeader store state.media lba).valueOffset < store.sectorSize ∨
        RunsReach store state.media length earlier) :
    ∃ got, (kvGet store poolId key value valueLen readExact (some readBuf)).run
        (answer store thread) state = some (.ok got, state) ∧
      got.length = length ∧ got.value.slice 0 length = bytes.slice 0 length ∧
      got.keyInfo = keyInfoOf none (storedHeader store state.media lba) := by
  obtain ⟨nonempty, short⟩ : 0 < key.length ∧ key.length ≤ nvmKvMaxKeySize := by
    simp only [keyAccepted, Bool.and_eq_true] at accepted
    exact of_decide_eq_true accepted.2
  have found := lookupLba_split split missed stored.held
  have after : afterLookup store state poolId key = state := by
    simp only [afterLookup, found, unexpired, Bool.false_eq_true, if_false]
  have maxLen : valueLen ≤ nvmKvMaxValueSize := (of_decide_eq_true valid).2.1
  have limit : (nvmKvMaxValueSize : Nat) = 1047552 := rfl
  have delivered : (gotValue store state.media (readRounds store state.media poolId key
      valueLen readExact (store.probes poolId key) (getBuffers store value valueLen readBuf))
      lba).slice 0 length = bytes.slice 0 length := by
    rcases stored.placed with ⟨near, _⟩ | ⟨behind, mapped⟩
    · obtain ⟨before, rounds⟩ := @readRounds_found store state.media poolId key valueLen
        readExact nonempty _ _ found (getBuffers store value valueLen readBuf)
      rw [rounds]
      exact stored.got (.inl near)
    · have far : ¬(storedHeader store state.media lba).valueOffset < store.sectorSize := by omega
      have full : ReadsValue (getBuffers store value valueLen readBuf) length := by
        refine ⟨rfl, ?_⟩
        have lower := (store.round_upto_sector_bounds valueLen (by omega)).1
        exact room.trans lower
      have reaches : readExact = true → RunsReach store state.media length (earlier ++ [lba]) := by
        intro exact passed member window
        rcases List.mem_append.mp member with before | own
        · exact (reach exact).resolve_left far passed before window
        · rw [List.mem_singleton] at own
          subst own
          have inside : 1 + valueSectors store.capabilities length ≤ store.maxSearchRange := by
            rw [NvmKvStore.maxSearchRange_eq]
            exact sectorsWritten_le ⟨true, 0, 0, 0⟩ bounded
          have run := @Media.rangeExists_run state.media passed _ _ (by omega) inside mapped
          omega
      obtain ⟨before, rounds, reads⟩ := @readRounds_reads store state.media poolId key
        valueLen length lba readExact earlier later
        (getBuffers store value valueLen readBuf) nonempty positive missed stored.held full reaches
      rw [split, rounds]
      exact stored.got (.inr reads)
  refine ⟨getResult store state.media poolId key valueLen readExact
    (getBuffers store value valueLen readBuf) lba, ?_, ?_, delivered, rfl⟩
  · rw [run_kvGet store thread state accepted valid readable, after]
    simp only [getAnswer, found, unexpired, Bool.false_eq_true, if_false]
  · simp only [getResult, stored.length]
    exact if_neg (by omega)

/-- Getting a key whose first pair is complete and has not expired delivers the
bytes that were put and their length, unless an exact reading was cut short on
its way. -/
theorem run_kvGet_complete (thread : ι) {state : StoreState ι} {poolId : UInt32}
    {pair : NvmKvIovec} {buf readBuf : Region} {clock lba valueLen : Nat} {value : Memory}
    {readExact : Bool} {earlier later : List Nat}
    (accepted : keyAccepted state poolId pair.key = true) (positive : 0 < pair.valueLen)
    (bounded : pair.valueLen ≤ nvmKvMaxValueSize)
    (complete : CompletePair store poolId pair buf clock lba state.media)
    (layout : fitsSector store.capabilities pair.key.length pair.valueLen ∨
      pair.value.address % store.sectorSize = 0)
    (split : store.probes poolId pair.key = earlier ++ lba :: later)
    (missed : ∀ passed, passed ∈ earlier → holds store state.media poolId pair.key passed = false)
    (unexpired : pairExpired store state.clock (storedHeader store state.media lba) = false)
    (valid : kvValidateValue store true valueLen = true)
    (readable : Readable store (getBuffers store value valueLen readBuf))
    (room : pair.valueLen ≤ valueLen)
    (reach : readExact = true → fitsSector store.capabilities pair.key.length pair.valueLen ∨
      RunsReach store state.media pair.valueLen earlier) :
    ∃ got, (kvGet store poolId pair.key value valueLen readExact (some readBuf)).run
        (answer store thread) state = some (.ok got, state) ∧
      got.length = pair.valueLen ∧
      got.value.slice 0 pair.valueLen = pair.value.bytes.slice 0 pair.valueLen ∧
      got.keyInfo = keyInfoOf none (storedHeader store state.media lba) := by
  have short : pair.key.length ≤ nvmKvMaxKeySize := by
    simp only [keyAccepted, Bool.and_eq_true] at accepted
    exact (of_decide_eq_true accepted.2).2
  refine run_kvGet_stored thread accepted positive bounded
    (complete.stored short positive bounded layout) split missed unexpired valid readable room ?_
  intro exact
  refine (reach exact).imp (fun fits => ?_) id
  have sector : mKvHeaderSize + pair.key.length + pair.valueLen ≤ store.sectorSize := fits
  rw [storedHeader_sector complete.first,
    (@readHeader_firstSector store poolId pair buf clock short bounded).2.1,
    writeLayout_fits pair.value fits]
  dsimp only
  omega

end Nvmkv
