import Nvmkv.PairExtents
import Nvmkv.PutGetRoundTrip

/-!
# The alignment of the caller's buffer

A value is written from the caller's buffer when that is aligned to the sector, and else
from a buffer of the pool into which it is copied behind the header. The layout counts the
vectors and places the value; the vectors are filled afterwards from the layout.

A pair that fits a sector is always written from the pool: the put is the same program
wherever the value lies. A longer value in a buffer that is not aligned is copied as well,
and the layout counts the vectors for the header's sector and the value. The vectors that
are filled then cover the header's sector alone, and the value is not written.
-/

namespace Nvmkv

variable {ι : Type} {store : NvmKvStore}

/-- The pair with its value in a buffer at another address. -/
def NvmKvIovec.placedAt (pair : NvmKvIovec) (address : Nat) : NvmKvIovec :=
  { pair with value := ⟨address, pair.value.bytes⟩ }

/-- The vectors filled for a pair are as many as the layout counts, and they cover the
sectors of its header and value. -/
def VectorsMatch (capabilities : NvmKvStoreCapabilities) (pair : NvmKvIovec) : Prop :=
  ∀ (buf : Region) (lba : Nat),
    let layout := writeLayout capabilities pair.key.length pair.value pair.valueLen
    let vectors := pairIovec capabilities layout buf pair.value pair.valueLen lba
    vectors.length = layout.iovCount ∧
      ∀ l, lba ≤ l → l < lba + pairSectors capabilities pair.key.length pair.value pair.valueLen →
        ∃ vector ∈ vectors, Media.Covers capabilities.nvmSectorSize vector l

/-- When a pair and the same pair in an aligned buffer are put in one state, everything that
is read of the key afterwards is the same. -/
def GetsAlike (store : NvmKvStore) (thread : ι) (state : StoreState ι) (poolId : UInt32)
    (pair : NvmKvIovec) (allocation : Allocation) (address : Nat) : Prop :=
  ∀ length alignedLength after alignedAfter,
    (kvPut store poolId pair allocation).run (answer store thread) state =
      some (.ok length, after) →
    (kvPut store poolId (pair.placedAt address) allocation).run (answer store thread) state =
      some (.ok alignedLength, alignedAfter) →
    ∀ clock value valueLen readExact readBuf,
      ((kvGet store poolId pair.key value valueLen readExact readBuf).run (answer store thread)
          { after with clock := clock }).map Prod.fst =
        ((kvGet store poolId pair.key value valueLen readExact readBuf).run (answer store thread)
          { alignedAfter with clock := clock }).map Prod.fst

/-- It makes no difference whether the buffer of a pair is aligned: not for what is read,
nor for whether the vectors match the layout. -/
structure AlignmentTransparent (store : NvmKvStore) (pair : NvmKvIovec) : Prop where
  gets : ∀ (ι : Type) (thread : ι) (state : StoreState ι) (poolId : UInt32)
    (allocation : Allocation) (address : Nat), pair.value.address % store.sectorSize ≠ 0 →
    address % store.sectorSize = 0 → GetsAlike store thread state poolId pair allocation address
  vectors : VectorsMatch store.capabilities pair

section Programs

variable {poolId : UInt32} {pair : NvmKvIovec} {address : Nat}

/-- The search at an address does not look at where the value lies in memory. -/
theorem kvGenLbaRead_placedAt (lba rounds : Nat) (insertLba : Bool) (buf : Region) :
    kvGenLbaRead store poolId (pair.placedAt address) lba rounds insertLba buf =
      kvGenLbaRead store poolId pair lba rounds insertLba buf := by
  induction rounds generalizing insertLba buf with
  | zero => rfl
  | succ rounds inductionHypothesis =>
    simp only [kvGenLbaRead, inductionHypothesis]
    rfl

/-- The search for an address does not look at the value. Induction follows the addresses. -/
theorem kvGenLbaProbes_placedAt (lbas : List Nat) (insertLba : Bool) (buf : Region) :
    kvGenLbaProbes store poolId (pair.placedAt address) lbas insertLba buf =
      kvGenLbaProbes store poolId pair lbas insertLba buf := by
  induction lbas generalizing insertLba buf with
  | nil => rfl
  | cons lba rest inductionHypothesis =>
    simp only [kvGenLbaProbes, kvGenLbaAt, kvGenLbaRead_placedAt, inductionHypothesis]

/-- The value is not written from the caller's buffer, so its place does not matter. -/
theorem kvPutWrite_placedAt {layout : WriteLayout} (copied : layout.userBufferUsage = false)
    (placed : GenLba) (memory : Option (Nat → NvmIovec)) (context : NvmKvCacheContext) :
    kvPutWrite store poolId (pair.placedAt address) layout placed memory context =
      kvPutWrite store poolId pair layout placed memory context := by
  have vectors : ∀ buf, pairIovec store.capabilities layout buf (pair.placedAt address).value
      pair.valueLen placed.keyHashVal =
        pairIovec store.capabilities layout buf pair.value pair.valueLen placed.keyHashVal := by
    intro buf
    simp only [pairIovec, copied, Bool.false_eq_true, if_false]
    rfl
  have write : ∀ expiry, kvProcessForWrite store.capabilities poolId (pair.placedAt address) layout
      placed.buf expiry placed.keyHashVal =
        kvProcessForWrite store.capabilities poolId pair layout placed.buf expiry
          placed.keyHashVal := by
    intro expiry
    unfold kvProcessForWrite
    dsimp only [NvmKvIovec.placedAt] at vectors ⊢
    simp only [vectors]
  unfold kvPutWrite
  simp only [write]
  rfl

/-- A put of a pair that fits a sector is the same program wherever the value lies. -/
theorem kvPut_placedAt {allocation : Allocation}
    (fits : fitsSector store.capabilities pair.key.length pair.valueLen) :
    kvPut store poolId (pair.placedAt address) allocation = kvPut store poolId pair allocation := by
  have layout : ∀ value, writeLayout store.capabilities pair.key.length value pair.valueLen =
      writeLayout store.capabilities pair.key.length pair.value pair.valueLen := by
    intro value
    rw [writeLayout_fits value fits, writeLayout_fits pair.value fits]
  have copied : (writeLayout store.capabilities pair.key.length pair.value
      pair.valueLen).userBufferUsage = false := by
    rw [writeLayout_fits pair.value fits]
  have allocated : kvAllocForWrite store.capabilities (pair.placedAt address).key.length
      (pair.placedAt address).value (pair.placedAt address).valueLen allocation.buf =
        kvAllocForWrite store.capabilities pair.key.length pair.value pair.valueLen
          allocation.buf := by
    unfold kvAllocForWrite
    dsimp only [NvmKvIovec.placedAt]
    rw [layout]
  have place : ∀ context found,
      kvPutPlace store poolId (pair.placedAt address) allocation context found =
        kvPutPlace store poolId pair allocation context found := by
    intro context found
    unfold kvPutPlace
    rw [allocated]
    cases ended : kvAllocForWrite store.capabilities pair.key.length pair.value pair.valueLen
        allocation.buf with
    | error code => rfl
    | ok taken =>
      obtain ⟨taken, buf⟩ := taken
      have same := (layout_of_alloc ended).1
      subst same
      dsimp only
      simp only [kvPutWrite_placedAt copied]
      unfold kvGenLba
      simp only [kvGenLbaProbes_placedAt]
      rfl
  unfold kvPut kvPutBody
  simp only [place]
  rfl

end Programs

section Vectors

variable {capabilities : NvmKvStoreCapabilities}

/-- A sector that the write vectors of a pair map is covered by one of them: else it would
not be mapped on a blank device either. -/
theorem pairIovec_covers (layout : WriteLayout) (buf : Region) (value : Memory)
    {valueLen lba l : Nat}
    (bounded : valueLen < 2 ^ 63)
    (inside : lba ≤ l ∧ l < lba + sectorsWritten capabilities layout valueLen) :
    ∃ vector ∈ pairIovec capabilities layout buf value valueLen lba,
      Media.Covers capabilities.nvmSectorSize vector l := by
  by_contra uncovered
  push Not at uncovered
  have same := @Media.applyBatch_frame (fun _ => none) capabilities.nvmSectorSize l _ uncovered
  have mapped := @pairWritten_mapped capabilities layout buf value valueLen lba l (fun _ => none)
    inside
  rw [← pairIovec_applied layout buf value bounded lba, same] at mapped
  cases mapped

/-- The vectors match the layout when the pair fits a sector or lies in an aligned buffer, and
the masking that counts the vectors gives the number that is filled. -/
theorem vectorsMatch_iff {pair : NvmKvIovec} (short : pair.key.length ≤ nvmKvMaxKeySize)
    (positive : 0 < pair.valueLen) (bounded : pair.valueLen ≤ nvmKvMaxValueSize) :
    VectorsMatch capabilities pair ↔
      (fitsSector capabilities pair.key.length pair.valueLen ∨
        pair.value.address % capabilities.nvmSectorSize = 0) ∧
      CountsVectors capabilities (bufferLength capabilities pair.key.length pair.valueLen) := by
  have limit : (nvmKvMaxValueSize : Nat) = 1047552 := rfl
  have sectors := @pairSectors_eq capabilities _ _ pair.value short positive bounded
  constructor
  · intro matched
    have layout : fitsSector capabilities pair.key.length pair.valueLen ∨
        pair.value.address % capabilities.nvmSectorSize = 0 := by
      by_contra neither
      rw [not_or] at neither
      obtain ⟨long, unaligned⟩ := neither
      obtain ⟨_, covers⟩ := matched (fun _ => 0) 0
      have some : 0 < valueSectors capabilities pair.valueLen := by
        have enough := (valueSectors_covers capabilities pair.valueLen).1
        apply Nat.pos_of_ne_zero
        intro none
        rw [none, Nat.zero_mul] at enough
        omega
      rw [sectors, if_neg long] at covers
      obtain ⟨vector, member, covered⟩ := covers 1 (by omega) (by omega)
      have inside := (pairIovec_content _ _ _ (by omega) _ (fun _ => none) member covered).1
      rw [writeLayout_unaligned positive long unaligned] at inside
      simp only [sectorsWritten, Bool.false_eq_true, if_false] at inside
      omega
    obtain ⟨announced, filled⟩ := layout_counts layout
    obtain ⟨count, _⟩ := matched (fun _ => 0) 0
    rw [pairIovec_length, announced, filled] at count
    refine ⟨layout, ?_⟩
    unfold CountsVectors
    omega
  · rintro ⟨layout, counted⟩ buf lba
    obtain ⟨announced, filled⟩ := layout_counts layout
    refine ⟨by rw [pairIovec_length, announced, filled, counted], ?_⟩
    intro l starts ends
    refine pairIovec_covers _ buf _ (by omega) ⟨starts, ?_⟩
    rw [sectors] at ends
    by_cases fits : fitsSector capabilities pair.key.length pair.valueLen
    · rw [if_pos fits] at ends
      rw [writeLayout_fits _ fits]
      exact ends
    · rw [if_neg fits] at ends
      rw [writeLayout_aligned fits (layout.resolve_left fits)]
      exact ends

end Vectors

/-- The alignment of the buffer makes no difference just when the pair fits a sector or its
buffer is aligned, and its vectors are counted right. -/
theorem alignment_transparent_iff (store : NvmKvStore) (pair : NvmKvIovec)
    (key_accepted : kvValidateKey pair.key = true)
    (value_accepted : kvValidateValue store false pair.valueLen = true) :
    AlignmentTransparent store pair ↔
      (fitsSector store.capabilities pair.key.length pair.valueLen ∨
        pair.value.address % store.sectorSize = 0) ∧
      CountsVectors store.capabilities
        (bufferLength store.capabilities pair.key.length pair.valueLen) := by
  obtain ⟨_, short⟩ := of_decide_eq_true key_accepted
  obtain ⟨positive, bounded, _⟩ := of_decide_eq_true value_accepted
  have vectors := @vectorsMatch_iff store.capabilities pair short positive bounded
  constructor
  · exact fun transparent => vectors.mp transparent.vectors
  · intro condition
    refine ⟨?_, vectors.mpr condition⟩
    intro ι thread state poolId allocation address unaligned _ length alignedLength after
      alignedAfter put alignedPut
    have fits := condition.1.resolve_right unaligned
    rw [kvPut_placedAt fits, put] at alignedPut
    cases alignedPut
    exact fun _ _ _ _ _ => rfl

/-- A pair of 100 bytes is the same wherever its buffer starts. -/
theorem alignment_transparent_short :
    AlignmentTransparent NvmKvStore.terabyteStore ⟨[97], ⟨1, fun _ => 1⟩, 100, 0, 0, true⟩ :=
  (alignment_transparent_iff NvmKvStore.terabyteStore ⟨[97], ⟨1, fun _ => 1⟩, 100, 0, 0, true⟩
    (by decide) (by decide)).mpr ⟨Or.inl (by decide), by decide⟩

section Example

/-- A value of two sectors whose bytes are ones. -/
def onesPair (address : Nat) : NvmKvIovec := ⟨[97], ⟨address, fun _ => 1⟩, 1024, 0, 0, true⟩

/-- The layout of its pair. -/
def onesLayout (address : Nat) : WriteLayout :=
  writeLayout NvmKvStore.terabyteStore.capabilities (onesPair address).key.length
    (onesPair address).value (onesPair address).valueLen

/-- A put of it into an empty store has everything it needs. -/
theorem onesPair_ready {address : Nat} (few : (onesLayout address).iovCount ≤ 64) :
    ∃ memory, PutReady NvmKvStore.terabyteStore (openedTerabyte fun _ => none) 0
      (onesPair address) plentyMemory memory [] sectorLba 0 := by
  have free : windowFree NvmKvStore.terabyteStore (fun _ => none) sectorLba = true :=
    windowFree_iff.mpr fun _ _ => rfl
  obtain ⟨target, _, old⟩ := @replaceAddress_first Unit NvmKvStore.terabyteStore
    (openedTerabyte fun _ => none) 0 [97] rfl (.inl free)
  have length : placedLength NvmKvStore.terabyteStore 0 (fun _ => none) sectorLba = 0 := by
    rw [placedLength, free, Bool.true_or, if_pos rfl]
  refine ⟨_, rfl, rfl, ⟨_, kvAllocForWrite_grows rfl few⟩, ?_, rfl, rfl⟩
  rw [putTarget_replace rfl]
  have none : replacedLength NvmKvStore.terabyteStore (openedTerabyte fun _ => none) 0
      (onesPair address).key = 0 := old.trans length
  rw [none]
  exact (congrArg _ target).trans rfl

/-- The put from either kind of buffer, and the media that it leaves. -/
theorem onesPair_written {address : Nat} (few : (onesLayout address).iovCount ≤ 64)
    (counted : (onesLayout address).iovCount = vectorsFilled
      NvmKvStore.terabyteStore.capabilities (onesLayout address) (onesPair address).valueLen) :
    ∃ after buf, (kvPut NvmKvStore.terabyteStore 0 (onesPair address) plentyMemory).run
        (answer NvmKvStore.terabyteStore ()) (openedTerabyte fun _ => none) =
          some (.ok (onesPair address).valueLen, after) ∧
      keyAccepted after 0 (onesPair address).key = true ∧
      after.media = pairWritten NvmKvStore.terabyteStore.capabilities (onesLayout address)
        (putHeader NvmKvStore.terabyteStore 0 (onesPair address) (onesLayout address) buf
          (openedTerabyte fun _ => none).clock)
        (onesPair address).value (onesPair address).valueLen sectorLba
        (openedTerabyte fun _ => none).media := by
  obtain ⟨memory, ready⟩ := onesPair_ready few
  obtain ⟨buf, ran⟩ := ready.run () fun _ => rfl
  exact ⟨_, buf, ran, ready.accepts_after _, ready.media_after_counted counted buf⟩

/-- From a buffer that is not aligned the value is not written, and a reading delivers the zeros of
sectors that are not mapped. The same answer would be given without the value. -/
theorem unaligned_value_lost :
    ¬∀ (store : NvmKvStore) (pair : NvmKvIovec), kvValidateKey pair.key = true →
      kvValidateValue store false pair.valueLen = true → AlignmentTransparent store pair := by
  intro transparent
  obtain ⟨alignedAfter, alignedBuf, alignedPut, alignedAccepted, alignedMedia⟩ :=
    @onesPair_written 0 (by decide) (by decide)
  obtain ⟨after, buf, put, accepted, media⟩ := @onesPair_written 1 (by decide) (by decide)
  have alike := (transparent NvmKvStore.terabyteStore (onesPair 1) (by decide) (by decide)).gets
    Unit () (openedTerabyte fun _ => none) 0 plentyMemory 0 (by decide) (by decide)
    _ _ _ _ put alignedPut 0 ⟨0, fun _ => 0⟩ 1024 false (some fun _ => 0)
  obtain ⟨later, addresses⟩ := probes_head NvmKvStore.terabyteStore 0 [97]
  have unpassed : ∀ media : Media, ∀ passed, passed ∈ ([] : List Nat) →
      holds NvmKvStore.terabyteStore media 0 [97] passed = false := by
    intro media passed member
    cases member
  have valid : kvValidateValue NvmKvStore.terabyteStore true 1024 = true := by decide
  have readable : Readable NvmKvStore.terabyteStore
      (getBuffers NvmKvStore.terabyteStore ⟨0, fun _ => 0⟩ 1024 fun _ => 0) :=
    ⟨by decide, fun _ => rfl⟩
  obtain ⟨got, delivered, _, bytes, _⟩ := @run_kvGet_complete Unit NvmKvStore.terabyteStore ()
    { alignedAfter with clock := 0 } 0 (onesPair 0) alignedBuf (fun _ => 0) _ sectorLba 1024
    ⟨0, fun _ => 0⟩ false [] _ alignedAccepted (by decide) (by decide)
    (completePair_of_written alignedMedia) (.inr rfl) addresses (unpassed _) rfl valid readable
    (by decide) (fun exact => Bool.noConfusion exact)
  have ran := @run_kvGet Unit NvmKvStore.terabyteStore () { after with clock := 0 } 0 [97]
    ⟨0, fun _ => 0⟩ 1024 false (fun _ => 0) accepted valid readable
  have same : (some (getAnswer NvmKvStore.terabyteStore { after with clock := 0 } 0 [97] 1024 false
      (getBuffers NvmKvStore.terabyteStore ⟨0, fun _ => 0⟩ 1024 fun _ => 0)) : Option _) =
        some (.ok got) :=
    ((congrArg (Option.map Prod.fst) ran).symm.trans alike).trans
      (congrArg (Option.map Prod.fst) delivered)
  have complete := completePair_of_written media
  obtain ⟨_, value⟩ := getAnswer_value addresses (unpassed _) (complete.held (by decide))
    (Option.some.inj same)
  have stored : got.value 0 = 1 := Region.eq_of_slice_eq bytes ⟨le_rfl, by decide⟩
  have offset : (storedHeader NvmKvStore.terabyteStore after.media sectorLba).valueOffset =
      (onesLayout 1).valueOffset := by
    rw [storedHeader_sector complete.first]
    exact (readHeader_firstSector (by decide) (by decide)).2.1
  have behind : ¬(storedHeader NvmKvStore.terabyteStore after.media sectorLba).valueOffset <
      NvmKvStore.terabyteStore.sectorSize := by
    rw [offset]
    decide
  have unmapped : after.media (sectorLba + 1) = none := by
    rw [media, pairWritten_outside _ _ _ _ (Or.inr (by decide +kernel))]
    rfl
  have zero : after.media.read NvmKvStore.terabyteStore.sectorSize sectorLba 512 = 0 := by
    have next : after.media (sectorLba + 512 / NvmKvStore.terabyteStore.sectorSize) = none :=
      unmapped
    rw [Media.read, next]
  rw [value, gotValue, if_neg behind] at stored
  exact absurd (zero.symm.trans stored) (by decide)

end Example

end Nvmkv
