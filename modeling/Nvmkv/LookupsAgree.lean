import Nvmkv.ExactReads

/-!
# The three lookups agree

`kv_exists` has a probe loop of its own, which asks the device first whether anything
is mapped in the window of an address; `kv_get` and `kv_get_key_info` share the loop of
`kv_read_media`, which reads every address. They stop at the same one. What a lookup
depends on is stated here by the eight probe positions: the first of them with the
header of the key decides, and it counts unless it has expired.

Sectors may hold anything, a key may be found at several of its positions, and the last
position is one like the others. Only of the header that counts it is asked that a value
which shares its sector ends there: `kv_get` copies as many bytes as the header says, and
behind the sector it would read and write behind its buffers. The device refuses the two
vectors of `kv_get` when it takes one only or the caller's buffer is not aligned.
-/

namespace Nvmkv

/-- A header with exactly this key and pool is stored at an address. -/
structure MatchesAt (store : NvmKvStore) (media : Media) (poolId : UInt32) (key : List UInt8)
    (lba : Nat) : Prop where
  keyLen : (storedHeader store media lba).keyLen = key.length
  key : (media.read store.sectorSize lba).slice mKvHeaderSize key.length = key
  poolId : (storedHeader store media lba).poolId = poolId.toNat

/-- The first probe position of a key that has its header. -/
structure FirstMatch (store : NvmKvStore) (media : Media) (poolId : UInt32) (key : List UInt8)
    (i : Nat) : Prop where
  probed : i < maxCollision
  found : MatchesAt store media poolId key (store.probeLba poolId key i)
  first : ∀ j, j < i → ¬MatchesAt store media poolId key (store.probeLba poolId key j)

/-- The first position that has the header of a key holds a pair that has not expired. -/
def LiveMatch {ι : Type} (store : NvmKvStore) (state : StoreState ι) (poolId : UInt32)
    (key : List UInt8) (i : Nat) : Prop :=
  FirstMatch store state.media poolId key i ∧
    pairExpired store state.clock
      (storedHeader store state.media (store.probeLba poolId key i)) = false

/-- A value that shares the sector of its header ends in it. -/
def EndsInSector (store : NvmKvStore) (hdr : NvmKvHeader) : Prop :=
  hdr.valueOffset < store.sectorSize → hdr.valueOffset + hdr.valueLen ≤ store.sectorSize

/-- What a lookup reports is what a header says. -/
structure Reports (keyInfo : NvmKvKeyInfo) (hdr : NvmKvHeader) : Prop where
  valueLen : keyInfo.valueLen = hdr.valueLen
  expiry : keyInfo.expiry = hdr.expiry
  genCount : keyInfo.genCount = hdr.genCount

/-- The information on a key reports its header. -/
theorem reports_keyInfoOf (poolId : Option UInt32) (hdr : NvmKvHeader) :
    Reports (keyInfoOf poolId hdr) hdr := ⟨rfl, rfl, rfl⟩

section Search

variable {store : NvmKvStore} {media : Media} {poolId : UInt32} {key : List UInt8}

/-- An address holds a key when its stored header matches. -/
theorem holds_iff {lba : Nat} :
    holds store media poolId key lba = true ↔ MatchesAt store media poolId key lba := by
  rw [holds, headerMatches_iff]
  constructor
  · rintro ⟨keyLen, bytes, pool⟩
    exact ⟨keyLen, bytes, pool⟩
  · rintro ⟨keyLen, bytes, pool⟩
    exact ⟨keyLen, bytes, pool⟩

/-- A lookup ends at the first position with the header of the key. -/
theorem FirstMatch.lookup {i : Nat} (matched : FirstMatch store media poolId key i) :
    lookupLba store media poolId key = some (store.probeLba poolId key i) := by
  rw [lookupLba, NvmKvStore.probes, List.find?_map, Option.map_eq_some_iff]
  refine ⟨i, ?_, rfl⟩
  rw [List.find?_range_eq_some]
  refine ⟨holds_iff.mpr matched.found, List.mem_range.mpr matched.probed, ?_⟩
  intro j before
  rw [Function.comp_apply, Bool.not_eq_true', Bool.eq_false_iff]
  exact fun held => matched.first j before (holds_iff.mp held)

/-- Every lookup that ends does so at a first position. -/
theorem exists_firstMatch {lba : Nat} (found : lookupLba store media poolId key = some lba) :
    ∃ i, FirstMatch store media poolId key i ∧ lba = store.probeLba poolId key i := by
  rw [lookupLba, NvmKvStore.probes, List.find?_map, Option.map_eq_some_iff] at found
  obtain ⟨i, first, address⟩ := found
  rw [List.find?_range_eq_some] at first
  obtain ⟨held, probed, before⟩ := first
  refine ⟨i, ⟨List.mem_range.mp probed, holds_iff.mp held, ?_⟩, address.symm⟩
  intro j earlier matched
  have missed := before j earlier
  rw [Function.comp_apply, holds_iff.mpr matched] at missed
  exact Bool.noConfusion missed

variable {ι : Type} {state : StoreState ι}

/-- The live header is that of the first position that matches. -/
theorem LiveMatch.header {i : Nat} (live : LiveMatch store state poolId key i) :
    liveHeader store state poolId key =
      some (storedHeader store state.media (store.probeLba poolId key i)) := by
  rw [liveHeader, live.1.lookup]
  simp only [live.2, Bool.false_eq_true, if_false]

/-- A live header is that of some probe. -/
theorem exists_liveMatch {hdr : NvmKvHeader} (live : liveHeader store state poolId key = some hdr) :
    ∃ i, LiveMatch store state poolId key i := by
  rw [liveHeader] at live
  cases found : lookupLba store state.media poolId key with
  | none =>
    rw [found] at live
    exact nomatch live
  | some lba =>
    simp only [found] at live
    obtain ⟨i, first, rfl⟩ := exists_firstMatch found
    split at live
    · exact nomatch live
    · rename_i unexpired
      exact ⟨i, first, Bool.eq_false_iff.mpr unexpired⟩

/-- What `kv_get` returns depends on the live header alone, apart from the bytes. The bytes
behind the caller's buffer are kept when a value that shares the header's sector ends there. -/
theorem getAnswer_live {valueLen : Nat} {readExact : Bool} {buffers : ReadBuffers}
    (valid : kvValidateValue store true valueLen = true)
    (short : buffers.valueIovLen ≤ valueLen) :
    (∀ hdr, liveHeader store state poolId key = some hdr →
      ∃ got, getAnswer store state poolId key valueLen readExact buffers = .ok got ∧
        got.keyInfo = keyInfoOf none hdr ∧
        (EndsInSector store hdr → ∀ i, valueLen ≤ i → got.value i = buffers.value.bytes i)) ∧
      (liveHeader store state poolId key = none →
        getAnswer store state poolId key valueLen readExact buffers = .error .objectNotFound) := by
  unfold liveHeader getAnswer
  cases lookupLba store state.media poolId key with
  | none => exact ⟨fun _ impossible => (nomatch impossible), fun _ => rfl⟩
  | some lba =>
    simp only
    cases pairExpired store state.clock (storedHeader store state.media lba) with
    | true => exact ⟨fun _ impossible => (nomatch impossible), fun _ => rfl⟩
    | false =>
      refine ⟨?_, fun impossible => nomatch impossible⟩
      intro hdr same
      obtain rfl := Option.some.inj same
      refine ⟨_, rfl, rfl, ?_⟩
      intro ends i beyond
      have sector := (roundUpto_valid valid).2
      have kept := @readRounds_beyond store state.media poolId key valueLen valid readExact i beyond
        (store.probes poolId key) buffers short
      simp only [getResult, gotValue]
      split
      · rename_i shares
        have inside := ends shares
        rw [Region.copy_outside _ _ (.inr (by omega)), kept]
      · exact kept

end Search

section Refusal

variable {ι : Type} {store : NvmKvStore} {thread : ι} {state : StoreState ι} {poolId : UInt32}
  {key : List UInt8} {valueLen : Nat}

/-- The error with which the device refuses the vectors of a reading. -/
def refusal (store : NvmKvStore) : NvmErrorCode :=
  if store.capabilities.nvmMaxNumIovs < 2 then .invalidInput else .memoryNotAligned

/-- Only a reading with two vectors is refused: there are too many, or the caller's buffer is
not aligned. -/
theorem run_nvmReadv_refused {buffers : ReadBuffers} (refused : ¬Readable store buffers)
    (lba : Nat) :
    (nvmReadv store (readIovec store buffers lba)).run (answer store thread) state =
      some (.error (refusal store), state) := by
  have double : buffers.numIovs = 2 := by
    by_contra single
    have sector := @readable_sector store { buffers with numIovs := 1 } rfl
    exact refused ⟨by rw [if_neg single]; exact sector.fits, fun double => absurd double single⟩
  unfold refusal
  by_cases few : store.capabilities.nvmMaxNumIovs < 2
  · simp [nvmReadv, readIovec, double, few]
  · have unaligned : ¬buffers.value.address % store.sectorSize = 0 := by
      intro aligned
      exact refused ⟨by rw [if_pos double]; omega, fun _ => aligned⟩
    simp [nvmReadv, readIovec, double, few, unaligned]

/-- A plain reading asks for both vectors at its first address and ends with the refusal. -/
theorem run_kvReadMediaProbes_plain_refused {buffers : ReadBuffers}
    (refused : ¬Readable store buffers) :
    (kvReadMediaProbes store poolId key valueLen false (store.probes poolId key) buffers).run
      (answer store thread) state = some (.error (refusal store), state) := by
  obtain ⟨later, probes⟩ := probes_head store poolId key
  rw [probes]
  simp only [kvReadMediaProbes, Bool.false_eq_true, false_and, if_false, kvReadMediaAt,
    Program.run_bind, run_nvmReadv_refused refused]
  rfl

/-- A plain `kv_get` whose vectors the device refuses returns the refusal and changes nothing. -/
theorem run_kvGet_plain_refused {value : Memory} {buf : Region}
    (accepted : keyAccepted state poolId key = true)
    (valid : kvValidateValue store true valueLen = true)
    (refused : ¬Readable store (getBuffers store value valueLen buf)) :
    (kvGet store poolId key value valueLen false (some buf)).run (answer store thread) state =
      some (.error (refusal store), state) := by
  simp only [keyAccepted, Bool.and_eq_true] at accepted
  obtain ⟨pool, validKey⟩ := accepted
  have positive : 0 < valueLen := (of_decide_eq_true valid).1
  have read : kvReadMedia store poolId key value valueLen buf false =
      kvReadMediaProbes store poolId key valueLen false (store.probes poolId key)
        (getBuffers store value valueLen buf) := by
    simp only [kvReadMedia, if_pos positive]
    rfl
  simp only [kvGet, Program.run_bind, run_kvValidatePoolId, Option.bind_some, pool, validKey,
    valid, Bool.not_true, Bool.or_self, Bool.false_eq_true, if_false, read,
    run_kvReadMediaProbes_plain_refused refused]
  rfl

end Refusal

/-- The three lookups of a key in a pool in use succeed when the first of its positions
with its header has not expired, and fail as not found otherwise. Those that succeed
report that header, and the bytes behind the caller's buffer are kept. The device takes the
vectors of the reading and does not fail; a value that shares the sector of the header found
ends there. -/
theorem lookups_agree {ι : Type} (store : NvmKvStore) (thread : ι) (state : StoreState ι)
    (poolId : UInt32) (key : List UInt8) (value : Memory) (valueLen : Nat)
    (existsBuf infoBuf getBuf : Region)
    (used : poolStatus state.inUse state.deleted poolId = .poolInUse)
    (validKey : kvValidateKey key = true)
    (validValue : kvValidateValue store true valueLen = true)
    (readable : Readable store (getBuffers store value valueLen getBuf))
    (contained : ∀ i, LiveMatch store state poolId key i →
      EndsInSector store (storedHeader store state.media (store.probeLba poolId key i))) :
    ∃ existed info got after,
      (kvExists store poolId key (some existsBuf)).run (answer store thread) state =
        some (.ok existed, after) ∧
      (kvGetKeyInfo store poolId key (some infoBuf)).run (answer store thread) state =
        some (info, after) ∧
      (kvGet store poolId key value valueLen false (some getBuf)).run (answer store thread) state =
        some (got, after) ∧
      ((∃ keyInfo, existed = some keyInfo) ↔ ∃ i, LiveMatch store state poolId key i) ∧
      ((∃ keyInfo, info = .ok keyInfo) ↔ ∃ i, LiveMatch store state poolId key i) ∧
      ((∃ result, got = .ok result) ↔ ∃ i, LiveMatch store state poolId key i) ∧
      ∀ i, LiveMatch store state poolId key i →
        let hdr := storedHeader store state.media (store.probeLba poolId key i)
        ∃ existsInfo keyInfo result, existed = some existsInfo ∧ info = .ok keyInfo ∧
          got = .ok result ∧ Reports existsInfo hdr ∧ Reports keyInfo hdr ∧
          Reports result.keyInfo hdr ∧ ∀ j, valueLen ≤ j → result.value j = value.bytes j := by
  have accepted : keyAccepted state poolId key = true := by
    rw [keyAccepted, validKey, used]
    rfl
  have short : (getBuffers store value valueLen getBuf).valueIovLen ≤ valueLen :=
    (roundUpto_valid validValue).1.le
  obtain ⟨got, missed⟩ := @getAnswer_live store poolId key _ state valueLen false
    (getBuffers store value valueLen getBuf) validValue short
  refine ⟨_, _, _, _, run_kvExists store thread state existsBuf accepted,
    run_kvGetKeyInfo store thread state infoBuf accepted,
    run_kvGet store thread state accepted validValue readable, ?_⟩
  cases live : liveHeader store state poolId key with
  | none =>
    have none : ¬∃ i, LiveMatch store state poolId key i := by
      rintro ⟨i, found⟩
      rw [found.header] at live
      cases live
    rw [missed live]
    refine ⟨iff_of_false ?_ none, iff_of_false ?_ none, iff_of_false ?_ none,
      fun i found => absurd ⟨i, found⟩ none⟩
    all_goals
      rintro ⟨_, impossible⟩
      cases impossible
  | some hdr =>
    have found := exists_liveMatch live
    obtain ⟨result, returned, keyInfo, kept⟩ := got hdr live
    rw [returned]
    refine ⟨⟨fun _ => found, fun _ => ⟨_, rfl⟩⟩, ⟨fun _ => found, fun _ => ⟨_, rfl⟩⟩,
      ⟨fun _ => found, fun _ => ⟨_, rfl⟩⟩, ?_⟩
    intro i here
    have same : hdr = storedHeader store state.media (store.probeLba poolId key i) :=
      Option.some.inj (live.symm.trans here.header)
    subst same
    refine ⟨_, _, result, rfl, rfl, rfl, reports_keyInfoOf _ _, reports_keyInfoOf _ _, ?_,
      kept (contained i here)⟩
    rw [keyInfo]
    exact reports_keyInfoOf _ _

/-- The media with a pair of the key `a`, whose value of 471 bytes ends with the sector of its
header, at its first address. -/
def filledSector : Media := fun lba =>
  if lba = NvmKvStore.terabyteStore.probeLba 0 [97] 0 then
    some (writeHeader (fun _ => 0) 0 [97] 471 41 7 0)
  else none

/-- What the header of this pair says. -/
theorem filledSector_stored :
    storedHeader NvmKvStore.terabyteStore filledSector
        (NvmKvStore.terabyteStore.probeLba 0 [97] 0) = ⟨1, 471, 41, 0, 7, 0⟩ := by
  rw [storedHeader_sector (if_pos rfl), readHeader_writeHeader]
  rfl

/-- A lookup of the key finds it at its first address. -/
theorem filledSector_live {ι : Type} :
    LiveMatch (ι := ι) NvmKvStore.terabyteStore (.opened filledSector (fun _ => false) 0) 0 [97]
      0 := by
  have held : holds NvmKvStore.terabyteStore filledSector 0 [97]
      (NvmKvStore.terabyteStore.probeLba 0 [97] 0) = true := by
    rw [holds_sector (by decide) (if_pos rfl),
      headerMatches_writeHeader _ _ _ _ _ _ _ _ _ (by decide)]
    rfl
  exact ⟨⟨by decide, holds_iff.mp held, fun j before => absurd before (Nat.not_lt_zero j)⟩, rfl⟩

/-- A stored pair is found by all three, with its length and its generation count. -/
theorem lookups_agree_stored :
    ∃ existsInfo keyInfo result after,
      (kvExists NvmKvStore.terabyteStore 0 [97] (some fun _ => 0)).run
        (answer NvmKvStore.terabyteStore ()) (.opened filledSector (fun _ => false) 0) =
          some (.ok (some existsInfo), after) ∧
      (kvGetKeyInfo NvmKvStore.terabyteStore 0 [97] (some fun _ => 0)).run
        (answer NvmKvStore.terabyteStore ()) (.opened filledSector (fun _ => false) 0) =
          some (.ok keyInfo, after) ∧
      (kvGet NvmKvStore.terabyteStore 0 [97] ⟨0, fun _ => 0⟩ 512 false (some fun _ => 0)).run
        (answer NvmKvStore.terabyteStore ()) (.opened filledSector (fun _ => false) 0) =
          some (.ok result, after) ∧
      existsInfo.valueLen = 471 ∧ keyInfo.valueLen = 471 ∧ result.keyInfo.valueLen = 471 ∧
      existsInfo.genCount = 7 ∧ keyInfo.genCount = 7 ∧ result.keyInfo.genCount = 7 := by
  have readable : Readable NvmKvStore.terabyteStore
      (getBuffers NvmKvStore.terabyteStore ⟨0, fun _ => 0⟩ 512 fun _ => 0) :=
    ⟨by decide, fun _ => rfl⟩
  have contained : ∀ i, LiveMatch (ι := Unit) NvmKvStore.terabyteStore
      (.opened filledSector (fun _ => false) 0) 0 [97] i → EndsInSector NvmKvStore.terabyteStore
        (storedHeader NvmKvStore.terabyteStore filledSector
          (NvmKvStore.terabyteStore.probeLba 0 [97] i)) := by
    intro i live
    have first : i = 0 := by
      by_contra later
      exact live.1.first 0 (by omega) (filledSector_live (ι := Unit)).1.found
    rw [first, filledSector_stored]
    exact fun _ => by decide
  obtain ⟨_, _, _, after, ranExists, ranInfo, ranGet, _, _, _, reports⟩ :=
    lookups_agree NvmKvStore.terabyteStore () (.opened filledSector (fun _ => false) 0) 0 [97]
      ⟨0, fun _ => 0⟩ 512 (fun _ => 0) (fun _ => 0) (fun _ => 0) (by decide) (by decide) (by decide)
      readable contained
  obtain ⟨existsInfo, keyInfo, result, rfl, rfl, rfl, existed, info, got, _⟩ :=
    reports 0 filledSector_live
  have stored := filledSector_stored
  refine ⟨existsInfo, keyInfo, result, after, ranExists, ranInfo, ranGet, ?_⟩
  change Reports _ (storedHeader NvmKvStore.terabyteStore filledSector _) at existed info got
  rw [stored] at existed info got
  exact ⟨existed.valueLen, info.valueLen, got.valueLen, existed.genCount, info.genCount,
    got.genCount⟩

/-- Of the same pair `kv_exists` reports the length and `kv_get` fails when the caller's buffer
is not aligned, although the buffer is accepted and no operation of the device fails. -/
theorem unaligned_lookup_refused :
    (∃ i, LiveMatch (ι := Unit) NvmKvStore.terabyteStore
      (.opened filledSector (fun _ => false) 0) 0 [97] i) ∧
    kvValidateValue NvmKvStore.terabyteStore true 512 = true ∧
    (∃ existsInfo after, (kvExists NvmKvStore.terabyteStore 0 [97] (some fun _ => 0)).run
      (answer NvmKvStore.terabyteStore ()) (.opened filledSector (fun _ => false) 0) =
        some (.ok (some existsInfo), after)) ∧
    (kvGet NvmKvStore.terabyteStore 0 [97] ⟨1, fun _ => 0⟩ 512 false (some fun _ => 0)).run
      (answer NvmKvStore.terabyteStore ()) (.opened filledSector (fun _ => false) 0) =
        some (.error .memoryNotAligned, .opened filledSector (fun _ => false) 0) := by
  have refused : ¬Readable NvmKvStore.terabyteStore
      (getBuffers NvmKvStore.terabyteStore ⟨1, fun _ => 0⟩ 512 fun _ => 0) :=
    fun readable => absurd (readable.aligned rfl) (by decide)
  refine ⟨⟨0, filledSector_live⟩, by decide, ?_, run_kvGet_plain_refused rfl (by decide) refused⟩
  have existed := @run_kvExists Unit NvmKvStore.terabyteStore ()
    (.opened filledSector (fun _ => false) 0) 0 [97] (fun _ => 0) rfl
  rw [filledSector_live.header] at existed
  exact ⟨_, _, existed⟩

end Nvmkv
