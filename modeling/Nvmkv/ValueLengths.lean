import Nvmkv.LoneRead
import Nvmkv.StoredPairs

/-!
# The estimate of a value length

`kv_get_val_len` reads no header. It asks at each of the eight addresses of a key for the
first run of mapped sectors and answers with the longest one. A run may belong to another
pair, and it may be the one of a neighbour behind an unmapped start; what the answer means
for the key is that none of the eight runs is longer.

At the address of the key the run starts with the key's header. If the sectors of the pair
are mapped it covers them, as far as the search goes. So the estimate is enough for the
value unless the stored length passes the range that is searched, which is twice the
greatest length that a put accepts.
-/

namespace Nvmkv

/-- The rounds of `kv_range_exist_wrapper` for `KVGETVALLEN`, with the code of the last query
and the greatest length so far. A run is no longer than the search, so its length fits the
`int` in which it is kept. -/
def kvRangeExistLengths (store : NvmKvStore) :
    List Nat → Except NvmErrorCode Unit → Nat → StoreM (Except NvmErrorCode Nat)
  | [], retCode, maxValLen =>
      if 0 < maxValLen then
        pure (.ok maxValLen)
      else
        pure (retCode.map fun _ => maxValLen)
  | keyHashVal :: rest, _, maxValLen => do
      match ← kvRangeExists ⟨keyHashVal, store.maxSearchRange⟩ with
      | .error .objectNotFound =>
          kvRangeExistLengths store rest (.error .objectNotFound) maxValLen
      | .error _ => pure (.error .internalFailure)
      | .ok foundRange =>
          kvRangeExistLengths store rest (.ok ())
            (if maxValLen < foundRange.length then foundRange.length else maxValLen)

/-- The estimated length of a value, in an `int` (`kv_get_val_len`). -/
def kvGetValLen (store : NvmKvStore) (poolId : UInt32) (key : List UInt8) :
    StoreM (Except NvmErrorCode Int) := do
  if !(← kvValidatePoolId poolId) || !kvValidateKey key then
    pure (.error .invalidInput)
  else
    match ← kvRangeExistLengths store (store.probes poolId key) (.ok ()) 0 with
    | .error code => pure (.error code)
    | .ok maxValLen => pure (.ok (Int.bmod (maxValLen * store.sectorSize) (2 ^ 32)))

/-- The value of a pair lies in the sector of the header. -/
def SharesSector (store : NvmKvStore) (hdr : NvmKvHeader) : Prop :=
  hdr.valueOffset < store.sectorSize

/-- Whether a value shares the sector of its header can be computed. -/
instance (store : NvmKvStore) (hdr : NvmKvHeader) : Decidable (SharesSector store hdr) :=
  inferInstanceAs (Decidable (_ < _))

/-- The bytes on the media that a reader of the value needs: the value in whole sectors, or
the one sector. -/
def neededBytes (store : NvmKvStore) (hdr : NvmKvHeader) : Nat :=
  if SharesSector store hdr then store.sectorSize
  else nvmKvRoundUptoBlk hdr.valueLen store.sectorSize

/-- The sectors that a header announces, its own included. -/
def announcedSectors (store : NvmKvStore) (hdr : NvmKvHeader) : Nat :=
  if SharesSector store hdr then 1 else 1 + valueSectors store.capabilities hdr.valueLen

/-- An address of the key has a pair of it, and all sectors of the pair are mapped. -/
structure HoldsWhole (store : NvmKvStore) (media : Media) (poolId : UInt32) (key : List UInt8)
    (lba : Nat) : Prop where
  probe : lba ∈ store.probes poolId key
  held : holds store media poolId key lba = true
  mapped : ∀ i < announcedSectors store (storedHeader store media lba), (media (lba + i)).isSome

variable {ι : Type}

/-- The call succeeds, and its answer is enough for the value of a pair. -/
def EstimatesEnough (store : NvmKvStore) (thread : ι) (state : StoreState ι) (poolId : UInt32)
    (key : List UInt8) (lba : Nat) : Prop :=
  ∃ length : Int,
    (kvGetValLen store poolId key).run (answer store thread) state = some (.ok length, state) ∧
    neededBytes store (storedHeader store state.media lba) ≤ length

section Runs

variable {store : NvmKvStore} {thread : ι} {state : StoreState ι} {poolId : UInt32}
  {key : List UInt8} {lba : Nat}

/-- The run that a query at an address finds. -/
abbrev foundLength (store : NvmKvStore) (media : Media) (lba : Nat) : Nat :=
  (media.rangeExists ⟨lba, store.maxSearchRange⟩).length

/-- The answer of the rounds is a length that is found, and none that is found is longer.
Induction follows the addresses; the greatest length so far is as long as it was. -/
theorem run_kvRangeExistLengths (probes : List Nat) (retCode : Except NvmErrorCode Unit)
    (maxValLen : Nat) (searched : maxValLen ≤ store.maxSearchRange)
    (found : 0 < maxValLen ∨ ∃ lba ∈ probes, 0 < foundLength store state.media lba) :
    ∃ longest, (kvRangeExistLengths store probes retCode maxValLen).run (answer store thread)
        state = some (.ok longest, state) ∧
      longest ≤ store.maxSearchRange ∧ maxValLen ≤ longest ∧
      ∀ lba ∈ probes, foundLength store state.media lba ≤ longest := by
  induction probes generalizing retCode maxValLen with
  | nil =>
    have some : 0 < maxValLen := by
      rcases found with some | ⟨lba, absent, _⟩
      · exact some
      · cases absent
    refine ⟨maxValLen, ?_, searched, le_rfl, ?_⟩
    · rw [kvRangeExistLengths, if_pos some, Program.run_pure]
    · intro lba absent
      cases absent
  | cons first rest inductionHypothesis =>
    have inside : foundLength store state.media first ≤ store.maxSearchRange :=
      Media.rangeExists_length_le _
    by_cases empty : foundLength store state.media first = 0
    · have later : 0 < maxValLen ∨ ∃ lba ∈ rest, 0 < foundLength store state.media lba := by
        rcases found with some | ⟨lba, listed, positive⟩
        · exact Or.inl some
        · rcases List.mem_cons.mp listed with rfl | listed
          · omega
          · exact Or.inr ⟨lba, listed, positive⟩
      obtain ⟨longest, ran, bounded, kept, reached⟩ :=
        inductionHypothesis (.error .objectNotFound) maxValLen searched later
      refine ⟨longest, ?_, bounded, kept, ?_⟩
      · simp only [kvRangeExistLengths, Program.run_bind, run_kvRangeExists, Option.bind_some,
          if_pos empty, ran]
      · intro lba listed
        rcases List.mem_cons.mp listed with rfl | listed
        · rw [empty]
          exact Nat.zero_le _
        · exact reached lba listed
    · obtain ⟨longer, same⟩ : ∃ longer, (if maxValLen < foundLength store state.media first then
          foundLength store state.media first else maxValLen) = longer := ⟨_, rfl⟩
      have least : maxValLen ≤ longer ∧ foundLength store state.media first ≤ longer ∧
          longer ≤ store.maxSearchRange := by
        rw [← same]
        split <;> omega
      obtain ⟨longest, ran, bounded, kept, reached⟩ :=
        inductionHypothesis (.ok ()) longer least.2.2 (Or.inl (by omega))
      refine ⟨longest, ?_, bounded, least.1.trans kept, ?_⟩
      · simp only [kvRangeExistLengths, Program.run_bind, run_kvRangeExists, Option.bind_some,
          if_neg empty, same, ran]
      · intro lba listed
        rcases List.mem_cons.mp listed with rfl | listed
        · exact least.2.1.trans kept
        · exact reached lba listed

/-- The searched sectors are the bytes of a slot, which an `int` holds. -/
theorem estimate_fits {longest : Nat} (bounded : longest ≤ store.maxSearchRange) :
    longest * store.sectorSize ≤ mKvMaxValueRange ∧
      Int.bmod (longest * store.sectorSize) (2 ^ 32) = longest * store.sectorSize := by
  have bytes : longest * store.sectorSize ≤ mKvMaxValueRange := by
    obtain ⟨product, _, _⟩ := store.sector_value_bits
    rw [← product, Nat.mul_comm store.sectorSize, ← NvmKvStore.maxSearchRange_eq]
    exact Nat.mul_le_mul_right _ bounded
  have range : mKvMaxValueRange = 2097152 := rfl
  refine ⟨bytes, ?_⟩
  apply Int.bmod_eq_of_le_mul_two
  · norm_cast
    omega
  · norm_cast
    omega

/-- The run at the address of a pair covers the sectors of the pair, as far as the search
goes. -/
theorem HoldsWhole.found (whole : HoldsWhole store state.media poolId key lba) :
    0 < foundLength store state.media lba ∧
      min (announcedSectors store (storedHeader store state.media lba)) store.maxSearchRange ≤
        foundLength store state.media lba := by
  have searched : 0 < store.maxSearchRange := by
    rw [NvmKvStore.maxSearchRange_eq]
    exact Nat.two_pow_pos _
  have announced : 0 < announcedSectors store (storedHeader store state.media lba) := by
    unfold announcedSectors
    split <;> omega
  have covered := Media.rangeExists_run (Nat.lt_min.mpr ⟨announced, searched⟩)
    (Nat.min_le_right _ _)
    fun i inside => whole.mapped i (Nat.lt_of_lt_of_le inside (Nat.min_le_left _ _))
  exact ⟨Nat.lt_of_lt_of_le (Nat.lt_min.mpr ⟨announced, searched⟩) covered, covered⟩

/-- What a value needs is at most what the search goes over, just when the value shares the
header's sector or is no longer than that. -/
theorem neededBytes_le_iff (hdr : NvmKvHeader) (bounded : hdr.valueLen < 2 ^ 63) :
    neededBytes store hdr ≤ mKvMaxValueRange ↔
      SharesSector store hdr ∨ hdr.valueLen ≤ mKvMaxValueRange := by
  obtain ⟨product, _, _⟩ := store.sector_value_bits
  have positive := store.sector_positive
  unfold neededBytes
  split
  · rename_i shares
    refine iff_of_true ?_ (Or.inl shares)
    rw [← product]
    exact Nat.le_mul_of_pos_right _ (Nat.two_pow_pos _)
  · rename_i apart
    rw [or_iff_right apart]
    obtain ⟨lower, upper⟩ := store.round_upto_sector_bounds hdr.valueLen bounded
    have sectors : nvmKvRoundUptoBlk hdr.valueLen store.sectorSize =
        valueSectors store.capabilities hdr.valueLen * store.sectorSize :=
      roundedLen_eq hdr.valueLen bounded
    constructor
    · intro enough
      omega
    · intro short
      have slot : 2 ^ store.valueBits * store.sectorSize = mKvMaxValueRange := by
        rw [Nat.mul_comm, product]
      rw [sectors, ← slot]
      apply Nat.mul_le_mul_right
      by_contra more
      have next := Nat.mul_le_mul_right store.sectorSize
        (Nat.succ_le_of_lt (Nat.lt_of_not_le more))
      rw [Nat.succ_mul] at next
      omega

/-- The sectors of a pair have room for what its value needs. -/
theorem neededBytes_le_announced (hdr : NvmKvHeader) (bounded : hdr.valueLen < 2 ^ 63) :
    neededBytes store hdr ≤ announcedSectors store hdr * store.sectorSize := by
  unfold neededBytes announcedSectors
  split
  · rw [Nat.one_mul]
  · have sectors : nvmKvRoundUptoBlk hdr.valueLen store.sectorSize =
        valueSectors store.capabilities hdr.valueLen * store.sectorSize :=
      roundedLen_eq hdr.valueLen bounded
    rw [sectors]
    exact Nat.mul_le_mul_right _ (Nat.le_add_left _ _)

/-- A call that is accepted answers with the longest run that its rounds find. -/
theorem run_kvGetValLen (accepted : keyAccepted state poolId key = true)
    (found : ∃ lba ∈ store.probes poolId key, 0 < foundLength store state.media lba) :
    ∃ longest : Nat, (kvGetValLen store poolId key).run (answer store thread) state =
        some (.ok (longest * store.sectorSize : Nat), state) ∧
      longest * store.sectorSize ≤ mKvMaxValueRange ∧
      ∀ lba ∈ store.probes poolId key, foundLength store state.media lba ≤ longest := by
  have takes : (!decide (poolStatus state.inUse state.deleted poolId = .poolInUse ∨
      poolId = 0xFFFFFFFF) || !kvValidateKey key) = false := by
    rw [← Bool.not_and]
    rw [keyAccepted] at accepted
    rw [accepted]
    rfl
  obtain ⟨longest, ran, bounded, _, reached⟩ := @run_kvRangeExistLengths ι store thread state
    (store.probes poolId key) (.ok ()) 0 (Nat.zero_le _) (Or.inr found)
  obtain ⟨bytes, signed⟩ := estimate_fits bounded
  refine ⟨longest, ?_, bytes, reached⟩
  simp only [kvGetValLen, Program.run_bind, run_kvValidatePoolId, Option.bind_some, takes,
    Bool.false_eq_true, if_false, ran, Program.run_pure, signed, Nat.cast_mul]

/-- No estimate passes the range that is searched. -/
theorem EstimatesEnough.within (accepted : keyAccepted state poolId key = true)
    (whole : HoldsWhole store state.media poolId key lba)
    (enough : EstimatesEnough store thread state poolId key lba) :
    neededBytes store (storedHeader store state.media lba) ≤ mKvMaxValueRange := by
  obtain ⟨longest, ran, bytes, _⟩ := @run_kvGetValLen ι store thread state poolId key accepted
    ⟨lba, whole.probe, whole.found.1⟩
  obtain ⟨length, answered, reaches⟩ := enough
  rw [ran] at answered
  cases answered
  exact (Int.ofNat_le.mp reaches).trans bytes

/-- Within it the run at the pair's own address is enough, and the estimate is no shorter. -/
theorem HoldsWhole.estimated (accepted : keyAccepted state poolId key = true)
    (whole : HoldsWhole store state.media poolId key lba)
    (within : neededBytes store (storedHeader store state.media lba) ≤ mKvMaxValueRange) :
    EstimatesEnough store thread state poolId key lba := by
  have bounded : (storedHeader store state.media lba).valueLen < 2 ^ 63 :=
    Nat.lt_trans (Region.word_lt _ _) (by decide)
  obtain ⟨some, covered⟩ := whole.found
  obtain ⟨longest, ran, _, reached⟩ := @run_kvGetValLen ι store thread state poolId key accepted
    ⟨lba, whole.probe, some⟩
  refine ⟨_, ran, Int.ofNat_le.mpr ?_⟩
  have least : neededBytes store (storedHeader store state.media lba) ≤
      min (announcedSectors store (storedHeader store state.media lba)) store.maxSearchRange *
        store.sectorSize := by
    obtain ⟨product, _, _⟩ := store.sector_value_bits
    rw [← Nat.mul_min_mul_right, Nat.le_min]
    refine ⟨neededBytes_le_announced _ bounded, ?_⟩
    rwa [NvmKvStore.maxSearchRange_eq, Nat.mul_comm, product]
  exact least.trans (Nat.mul_le_mul_right _ (covered.trans (reached lba whole.probe)))

end Runs

/-- The estimate is enough for the value of a pair at one of the addresses of the key just
when the value shares the sector of the header or its stored length is within the range
that is searched. -/
theorem value_estimate_enough_iff {ι : Type} (store : NvmKvStore) (thread : ι)
    (state : StoreState ι) (poolId : UInt32) (key : List UInt8) (lba : Nat)
    (accepted : keyAccepted state poolId key = true)
    (whole : HoldsWhole store state.media poolId key lba) :
    EstimatesEnough store thread state poolId key lba ↔
      SharesSector store (storedHeader store state.media lba) ∨
        (storedHeader store state.media lba).valueLen ≤ mKvMaxValueRange := by
  have bounded : (storedHeader store state.media lba).valueLen < 2 ^ 63 :=
    Nat.lt_trans (Region.word_lt _ _) (by decide)
  rw [← neededBytes_le_iff _ bounded]
  constructor
  · exact EstimatesEnough.within accepted whole
  · exact HoldsWhole.estimated accepted whole

/-- Every sector is mapped and starts with a header of the key `a`, whose value is behind
the sector. -/
def repeatedMedia (valueLen : Nat) : Media :=
  fun _ => some (writeHeader (fun _ => 0) 0 [97] valueLen 512 0 0)

/-- The first address of the key then has a whole pair. -/
theorem repeatedMedia_whole (valueLen : Nat) :
    HoldsWhole NvmKvStore.terabyteStore (repeatedMedia valueLen) 0 [97]
      (NvmKvStore.terabyteStore.probeLba 0 [97] 0) where
  probe := mem_probes.mpr ⟨0, by decide, rfl⟩
  held := by
    rw [holds_sector (by decide) rfl, headerMatches_writeHeader _ _ _ _ _ _ _ _ _ (by decide)]
    rfl
  mapped _ _ := rfl

/-- Every address of the media has the same header. -/
theorem repeatedMedia_header (valueLen lba : Nat) :
    storedHeader NvmKvStore.terabyteStore (repeatedMedia valueLen) lba =
      ⟨1, valueLen % 2 ^ 32, 512, 0, 0, 0⟩ := by
  rw [storedHeader_sector rfl, readHeader_writeHeader]
  rfl

/-- The estimate is enough for the longest value that a put accepts. -/
theorem value_estimate_longest :
    EstimatesEnough NvmKvStore.terabyteStore ()
      (.opened (repeatedMedia nvmKvMaxValueSize) (fun _ => false) 0) 0 [97]
      (NvmKvStore.terabyteStore.probeLba 0 [97] 0) := by
  apply (value_estimate_enough_iff NvmKvStore.terabyteStore ()
    (.opened (repeatedMedia nvmKvMaxValueSize) (fun _ => false) 0) 0 [97] _ rfl
    (repeatedMedia_whole _)).mpr
  apply Or.inr
  change (storedHeader _ (repeatedMedia nvmKvMaxValueSize) _).valueLen ≤ _
  rw [repeatedMedia_header]
  decide

/-- For a stored length of three MiB, which no put writes, it is not. -/
theorem value_estimate_too_small :
    ¬∀ (store : NvmKvStore) (state : StoreState Unit) (poolId : UInt32) (key : List UInt8)
      (lba : Nat), keyAccepted state poolId key = true →
      HoldsWhole store state.media poolId key lba →
      EstimatesEnough store () state poolId key lba := by
  intro enough
  have whole := repeatedMedia_whole 3145728
  have longest := enough NvmKvStore.terabyteStore
    (.opened (repeatedMedia 3145728) (fun _ => false) 0) 0 [97] _ rfl whole
  have within := longest.within rfl whole
  change neededBytes _ (storedHeader _ (repeatedMedia 3145728) _) ≤ _ at within
  rw [repeatedMedia_header, neededBytes_le_iff _ (by decide)] at within
  revert within
  decide

end Nvmkv
