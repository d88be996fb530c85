import Nvmkv.Media

/-!
# The header of a stored pair

A stored pair starts with a header of forty bytes and the key behind it
(`nvm_kv_header_t`). The value follows the key in the same sector or starts at
the next sector; the header says which. All fields are words at fixed offsets,
so the code's structure pointer is here a reading of the buffer.
-/

namespace Nvmkv

/-- The size of the header (`M_KV_HEADER_SIZE`). -/
def mKvHeaderSize : Nat := 40

/-- The size of the metadata within the header (`sizeof(nvm_kv_key_metadata_t)`). -/
def keyMetadataSize : Nat := 16

/-- The header fields that the store reads. -/
structure NvmKvHeader where
  keyLen : Nat
  valueLen : Nat
  valueOffset : Nat
  poolId : Nat
  genCount : Nat
  expiry : Nat

/-- The header at the start of a buffer. -/
def readHeader (buf : Region) : NvmKvHeader where
  keyLen := buf.word 4
  valueLen := buf.word 8
  valueOffset := buf.word 12
  poolId := buf.word 16
  genCount := buf.word 32
  expiry := buf.word 36

/-- Write the header fields and the key. The reserved word keeps what the buffer
held before. -/
def writeHeader (buf : Region) (poolId : UInt32) (key : List UInt8)
    (valueLen valueOffset genCount expiry : Nat) : Region :=
  let buf := buf.setWord 0 keyMetadataSize
  let buf := buf.setWord 32 genCount
  let buf := buf.setWord 36 expiry
  let buf := (buf.setWord 24 0).setWord 28 0
  let buf := buf.setWord 4 key.length
  let buf := buf.setWord 8 valueLen
  let buf := buf.setWord 16 poolId.toNat
  let buf := buf.setWord 12 valueOffset
  buf.copy mKvHeaderSize key.length (Region.ofList key)

/-- The comparison that finds a key: its length, its bytes and its pool. -/
def headerMatches (buf : Region) (poolId : UInt32) (key : List UInt8) : Bool :=
  (readHeader buf).keyLen = key.length ∧ buf.slice mKvHeaderSize key.length = key ∧
    (readHeader buf).poolId = poolId.toNat

/-- What a written header reads back as. -/
theorem readHeader_writeHeader (buf : Region) (poolId : UInt32) (key : List UInt8)
    (valueLen valueOffset genCount expiry : Nat) :
    readHeader (writeHeader buf poolId key valueLen valueOffset genCount expiry) =
      { keyLen := key.length % 2 ^ 32
        valueLen := valueLen % 2 ^ 32
        valueOffset := valueOffset % 2 ^ 32
        poolId := poolId.toNat % 2 ^ 32
        genCount := genCount % 2 ^ 32
        expiry := expiry % 2 ^ 32 } := by
  have behind : ∀ (region : Region) start, start + 4 ≤ mKvHeaderSize →
      (region.copy mKvHeaderSize key.length (Region.ofList key)).word start =
        region.word start :=
    fun region start before => Region.word_copy_disjoint region _ (Or.inl before)
  unfold readHeader writeHeader
  simp only [behind _ 4 (by decide), behind _ 8 (by decide), behind _ 12 (by decide),
    behind _ 16 (by decide), behind _ 32 (by decide), behind _ 36 (by decide)]
  simp (disch := decide) only [Region.word_setWord_same, Region.word_setWord_disjoint]

/-- The key of a written header reads back. -/
theorem key_writeHeader (buf : Region) (poolId : UInt32) (key : List UInt8)
    (valueLen valueOffset genCount expiry : Nat) :
    (writeHeader buf poolId key valueLen valueOffset genCount expiry).slice mKvHeaderSize
      key.length = key := Region.slice_copy_ofList _ _ key

/-- A header is the six words and the key behind them: two buffers that agree on
the first sector match the same keys. -/
theorem readHeader_congr {left right : Region}
    (same : ∀ i, i < mKvHeaderSize → left i = right i) : readHeader left = readHeader right := by
  have words : ∀ offset, offset + 4 ≤ mKvHeaderSize → left.word offset = right.word offset :=
    fun offset inside => Region.word_congr fun i _ upper => same i (by omega)
  unfold readHeader
  rw [words 4 (by decide), words 8 (by decide), words 12 (by decide), words 16 (by decide),
    words 32 (by decide), words 36 (by decide)]

/-- Whether a header is that of a key depends on the header and on as many bytes behind it as the
key has. -/
theorem headerMatches_congr {left right : Region} {poolId : UInt32} {key : List UInt8}
    (same : ∀ i, i < mKvHeaderSize + key.length → left i = right i) :
    headerMatches left poolId key = headerMatches right poolId key := by
  have header : readHeader left = readHeader right :=
    readHeader_congr fun i inside => same i (by omega)
  have slices : left.slice mKvHeaderSize key.length = right.slice mKvHeaderSize key.length :=
    Region.slice_congr fun i _ upper => same i upper
  unfold headerMatches
  rw [header, slices]

/-- It is when its key length, the key behind it and its pool are the same. -/
theorem headerMatches_iff {buf : Region} {poolId : UInt32} {key : List UInt8} :
    headerMatches buf poolId key = true ↔
      (readHeader buf).keyLen = key.length ∧ buf.slice mKvHeaderSize key.length = key ∧
        (readHeader buf).poolId = poolId.toNat := decide_eq_true_iff

/-- A header names one pool and one key only. -/
theorem headerMatches_unique {buf : Region} {poolId other : UInt32} {key rival : List UInt8}
    (first : headerMatches buf poolId key) (second : headerMatches buf other rival) :
    poolId = other ∧ key = rival := by
  obtain ⟨keyLen, bytes, pool⟩ := headerMatches_iff.mp first
  obtain ⟨rivalLen, rivalBytes, rivalPool⟩ := headerMatches_iff.mp second
  refine ⟨UInt32.toNat_inj.mp (pool.symm.trans rivalPool), ?_⟩
  rw [← bytes, ← rivalBytes, ← keyLen, ← rivalLen]

/-- A written header matches the key it was written for, and no other one. -/
theorem headerMatches_writeHeader (buf : Region) (poolId other : UInt32) (key rival : List UInt8)
    (valueLen valueOffset genCount expiry : Nat) (short : key.length ≤ nvmKvMaxKeySize) :
    headerMatches (writeHeader buf poolId key valueLen valueOffset genCount expiry) other rival =
      decide (poolId = other ∧ key = rival) := by
  have fits : key.length < 2 ^ 32 := short.trans_lt (by decide)
  have own : headerMatches (writeHeader buf poolId key valueLen valueOffset genCount expiry)
      poolId key := by
    rw [headerMatches_iff, readHeader_writeHeader, key_writeHeader]
    exact ⟨Nat.mod_eq_of_lt fits, rfl, Nat.mod_eq_of_lt poolId.toNat_lt⟩
  by_cases same : poolId = other ∧ key = rival
  · obtain ⟨rfl, rfl⟩ := same
    simpa using own
  · rw [decide_eq_false same, Bool.eq_false_iff]
    intro matched
    exact same (headerMatches_unique own matched)

end Nvmkv
