import Nvmkv.LookupsAgree
import Nvmkv.ReplaceRoundTrip

/-!
# The round trip of a new key

A key that none of its probe positions has is put to the first free window on its way,
and nothing is trimmed for it. When a vector takes a power of two of sectors, as many
vectors are announced as are filled, so that the whole pair is written. A later lookup
passes over the same positions as the put did and reads the pair back: its bytes, its
length, its generation count and its expiry time. The buffer it reads into has to be
aligned for that, which `kv_get` leaves to the device to check.
-/

namespace Nvmkv

variable {ι : Type} {store : NvmKvStore}

/-- A vector takes a power of two of sectors; its length is a 64-bit number. -/
structure PowerOfTwoLimit (capabilities : NvmKvStoreCapabilities) : Prop where
  multiple : ∃ sectorBits, capabilities.maxWriteSize =
    2 ^ sectorBits * capabilities.nvmSectorSize
  word : capabilities.maxWriteSize < 2 ^ 64

/-- Such a limit makes the announced vectors of every pair as many as are filled. -/
theorem PowerOfTwoLimit.counts {capabilities : NvmKvStoreCapabilities}
    (limited : PowerOfTwoLimit capabilities) {keyLen valueLen : Nat}
    (bounded : valueLen ≤ nvmKvMaxValueSize) :
    CountsVectors capabilities (bufferLength capabilities keyLen valueLen) := by
  obtain ⟨sectorBits, multiple⟩ := limited.multiple
  obtain ⟨bits, _, upper, size⟩ := capabilities.sector_pow
  have small := capabilities.sector_upper
  have power : capabilities.maxWriteSize = 2 ^ (sectorBits + bits) := by
    rw [multiple, size, ← Nat.pow_add]
  have short : sectorBits + bits < 64 := by
    have word := limited.word
    rw [power] at word
    exact (Nat.pow_lt_pow_iff_right (by norm_num)).mp word
  have half : 2 ^ (sectorBits + bits) ≤ 2 ^ 63 := Nat.pow_le_pow_right (by norm_num) (by omega)
  have limit : (nvmKvMaxValueSize : Nat) = 1047552 := rfl
  have length : bufferLength capabilities keyLen valueLen ≤ 2 ^ 63 := by
    unfold bufferLength
    split
    · omega
    · rw [roundedLen_eq valueLen (by omega)]
      have covers := (valueSectors_covers capabilities valueLen).2
      omega
  exact countsVectors_pow power short (by omega)

/-- Whether a pair put at one time has expired at another. -/
def expiredBy (store : NvmKvStore) (pair : NvmKvIovec) (putTime clock : Nat) : Bool :=
  store.expiryMode ≠ .disableExpiry ∧
    absoluteExpiry (putExpiry store pair) putTime % 2 ^ 32 < clock % 2 ^ 32 ∧
    absoluteExpiry (putExpiry store pair) putTime % 2 ^ 32 ≠ 0

/-- What a reading of a put pair delivers: its length, its bytes, and its information as
it is stored. -/
structure GetsPair (store : NvmKvStore) (pair : NvmKvIovec) (putTime : Nat) (got : GetResult) :
    Prop where
  length : got.length = pair.valueLen
  bytes : got.value.slice 0 pair.valueLen = pair.value.bytes.slice 0 pair.valueLen
  keyLen : got.keyInfo.keyLen = pair.key.length
  valueLen : got.keyInfo.valueLen = pair.valueLen
  genCount : got.keyInfo.genCount = pair.genCount % 2 ^ 32
  expiry : got.keyInfo.expiry = absoluteExpiry (putExpiry store pair) putTime % 2 ^ 32

section Fresh

variable {thread : ι} {state : StoreState ι} {poolId : UInt32} {pair : NvmKvIovec}
  {allocation : Allocation} {memory : Nat → NvmIovec} {trims : List NvmIovec} {lba trimLen : Nat}

/-- Without a cache, a key that none of its positions has goes to a free window behind
mapped ones, and nothing is trimmed. -/
theorem PutReady.fresh
    (ready : PutReady store state poolId pair allocation memory trims lba trimLen)
    (noCache : store.cacheSize = 0)
    (unmatched : ∀ i, i < maxCollision →
      ¬MatchesAt store state.media poolId pair.key (store.probeLba poolId pair.key i)) :
    trims = [] ∧ ∃ earlier later, store.probes poolId pair.key = earlier ++ lba :: later ∧
      ∀ passed, passed ∈ earlier → passed ≠ lba ∧
        holds store state.media poolId pair.key passed = false := by
  have unheld : ∀ passed, passed ∈ store.probes poolId pair.key →
      holds store state.media poolId pair.key passed = false := by
    intro passed probed
    obtain ⟨i, inside, rfl⟩ := mem_probes.mp probed
    rw [Bool.eq_false_iff]
    exact fun held => unmatched i inside (holds_iff.mp held)
  have target := ready.target
  have missed : cacheAnswer store state poolId pair.key = (false, .zero) := if_neg (by omega)
  simp only [putTarget, missed, Bool.false_eq_true, if_false] at target
  obtain ⟨earlier, later, split, passedOver, ended⟩ := place_target target
  have probed : lba ∈ store.probes poolId pair.key := by
    rw [split]
    exact List.mem_append_right _ List.mem_cons_self
  rcases ended with ⟨free, none⟩ | ⟨_, held, _⟩
  · subst none
    have trimmed := ready.trimmed
    simp only [kvProcessForTrim, Nat.not_lt_zero, if_false, ne_eq, not_true_eq_false,
      Except.ok.injEq] at trimmed
    refine ⟨trimmed.symm, earlier, later, split, ?_⟩
    intro passed member
    obtain ⟨mapped, missed⟩ := passedOver passed member
    refine ⟨?_, missed⟩
    rintro rfl
    rw [free] at mapped
    exact Bool.noConfusion mapped
  · rw [unheld lba probed] at held
    exact Bool.noConfusion held

end Fresh

/-- A put of a key that none of its positions has, from an aligned buffer or within the
header sector, is read back by every accepted reading with room for its sectors, as long
as the pair has not expired. No other call is in progress. That the pool is in use is
part of what a put that succeeds has checked. -/
theorem put_get_round_trip (store : NvmKvStore) (thread : ι) (state after : StoreState ι)
    (poolId : UInt32) (pair : NvmKvIovec) (allocation : Allocation) (length : Nat)
    (limited : PowerOfTwoLimit store.capabilities) (noCache : store.cacheSize = 0)
    (alone : ∀ lba, state.safeLbaList lba = none)
    (unmatched : ∀ i, i < maxCollision →
      ¬MatchesAt store state.media poolId pair.key (store.probeLba poolId pair.key i))
    (layout : fitsSector store.capabilities pair.key.length pair.valueLen ∨
      pair.value.address % store.sectorSize = 0)
    (put : (kvPut store poolId pair allocation).run (answer store thread) state =
      some (.ok length, after))
    (clock : Nat) (unexpired : expiredBy store pair state.clock clock = false)
    (value : Memory) (valueLen : Nat) (readBuf : Region)
    (accepted : kvValidateValue store true valueLen = true)
    (room : nvmKvRoundUptoBlk pair.valueLen store.sectorSize ≤ valueLen)
    (readable : Readable store (getBuffers store value valueLen readBuf)) :
    length = pair.valueLen ∧
      ∃ got, (kvGet store poolId pair.key value valueLen false (some readBuf)).run
          (answer store thread) { after with clock := clock } =
            some (.ok got, { after with clock := clock }) ∧
        GetsPair store pair state.clock got := by
  obtain ⟨memory, trims, lba, trimLen, ready⟩ := PutReady.of_run alone put
  obtain ⟨⟨some, short⟩, positive, bounded⟩ := ready.lengths
  have nonempty : pair.key ≠ [] := List.length_pos_iff.mp some
  obtain ⟨none, earlier, later, split, passedOver⟩ := ready.fresh noCache unmatched
  subst none
  obtain ⟨buf, ran⟩ := ready.run thread alone
  rw [put, Option.some.injEq, Prod.mk.injEq, Except.ok.injEq] at ran
  obtain ⟨same, rfl⟩ := ran
  refine ⟨same, ?_⟩
  have written := @PutReady.media_after _ _ thread _ _ _ _ _ _ _ ready layout
    (limited.counts bounded) buf
  have complete := completePair_of_written written
  have windows := earlier_windows nonempty bounded split
    (fun passed member => (passedOver passed member).1) written
  generalize reached : state.afterPut store thread poolId pair _ lba = after at *
  have missed : ∀ passed, passed ∈ earlier →
      holds store after.media poolId pair.key passed = false := by
    intro passed member
    rw [holds_congr short (windows passed member passed le_rfl
      (Nat.lt_add_of_pos_right (Nat.two_pow_pos _)))]
    exact (passedOver passed member).2
  have first := @storedHeader_sector store _ _ _ complete.first
  obtain ⟨storedLen, _, storedExpiry⟩ :=
    @readHeader_firstSector store poolId pair buf state.clock short bounded
  have fresh : pairExpired store clock (storedHeader store after.media lba) = false := by
    rw [first, pairExpired, storedExpiry]
    exact unexpired
  have pools : keyAccepted after poolId pair.key = true := by
    rw [← reached]
    exact ready.accepts
  have enough : pair.valueLen ≤ valueLen := by
    have limit : (nvmKvMaxValueSize : Nat) = 1047552 := rfl
    exact (store.round_upto_sector_bounds pair.valueLen (by omega)).1.trans room
  obtain ⟨got, delivered, gotLength, bytes, keyInfo⟩ := @run_kvGet_complete _ store thread
    { after with clock := clock } poolId pair buf readBuf state.clock lba valueLen value false
    earlier later pools positive bounded complete layout split missed fresh accepted readable enough
    (fun exact => Bool.noConfusion exact)
  refine ⟨got, delivered, gotLength, bytes, ?_, ?_, ?_, ?_⟩
  · have matched := complete.held short
    rw [holds_iff] at matched
    rw [keyInfo]
    exact matched.keyLen
  · rw [keyInfo, keyInfoOf, first]
    exact storedLen
  · rw [keyInfo, keyInfoOf, first]
    exact genCount_firstSector short
  · rw [keyInfo, keyInfoOf, first]
    exact storedExpiry

/-- No position of a key holds it on empty media. -/
theorem unmatched_empty (store : NvmKvStore) {poolId : UInt32} {key : List UInt8}
    (nonempty : 0 < key.length) (lba : Nat) : ¬MatchesAt store (fun _ => none) poolId key lba := by
  intro matched
  have held := holds_iff.mpr matched
  rw [holds_unmapped nonempty rfl] at held
  exact Bool.noConfusion held

/-- A value of one sector is put into an empty store and read back. -/
theorem put_get_round_trip_first : ∃ after got,
    (kvPut NvmKvStore.terabyteStore 0 sectorPair plentyMemory).run
      (answer NvmKvStore.terabyteStore ()) (openedTerabyte fun _ => none) =
        some (.ok 512, after) ∧
    (kvGet NvmKvStore.terabyteStore 0 [97] ⟨0, fun _ => 0⟩ 512 false (some fun _ => 0)).run
      (answer NvmKvStore.terabyteStore ()) { after with clock := 0 } =
        some (.ok got, { after with clock := 0 }) ∧
    GetsPair NvmKvStore.terabyteStore sectorPair 0 got := by
  obtain ⟨memory, ready, _⟩ := sectorPair_first
  obtain ⟨buf, written⟩ := ready.run () fun _ => rfl
  obtain ⟨_, got, delivered, pair⟩ := put_get_round_trip NvmKvStore.terabyteStore ()
    (openedTerabyte fun _ => none) _ 0 sectorPair plentyMemory 512
    ⟨⟨10, by decide⟩, by decide⟩ rfl (fun _ => rfl)
    (fun i _ => unmatched_empty NvmKvStore.terabyteStore (by decide) _) (.inr rfl) written 0 rfl
    ⟨0, fun _ => 0⟩ 512 (fun _ => 0) (by decide) (by decide) ⟨by decide, fun _ => rfl⟩
  exact ⟨_, got, written, delivered, pair⟩

/-- The same value is put and not read back into a buffer that is not aligned, although the
length of the buffer is accepted: the device refuses it. -/
theorem unaligned_get_refused :
    PowerOfTwoLimit NvmKvStore.terabyteStore.capabilities ∧
    (∀ i, i < maxCollision → ¬MatchesAt NvmKvStore.terabyteStore (fun _ => none) 0 sectorPair.key
      (NvmKvStore.terabyteStore.probeLba 0 sectorPair.key i)) ∧
    kvValidateValue NvmKvStore.terabyteStore true 512 = true ∧
    ∃ after, (kvPut NvmKvStore.terabyteStore 0 sectorPair plentyMemory).run
        (answer NvmKvStore.terabyteStore ()) (openedTerabyte fun _ => none) =
          some (.ok 512, after) ∧
      expiredBy NvmKvStore.terabyteStore sectorPair 0 0 = false ∧
      (kvGet NvmKvStore.terabyteStore 0 [97] ⟨1, fun _ => 0⟩ 512 false (some fun _ => 0)).run
        (answer NvmKvStore.terabyteStore ()) { after with clock := 0 } =
          some (.error .memoryNotAligned, { after with clock := 0 }) := by
  obtain ⟨memory, ready, _⟩ := sectorPair_first
  obtain ⟨buf, written⟩ := ready.run () fun _ => rfl
  have refused : ¬Readable NvmKvStore.terabyteStore
      (getBuffers NvmKvStore.terabyteStore ⟨1, fun _ => 0⟩ 512 fun _ => 0) :=
    fun readable => absurd (readable.aligned rfl) (by decide)
  refine ⟨⟨⟨10, by decide⟩, by decide⟩,
    fun i _ => unmatched_empty NvmKvStore.terabyteStore (by decide) _, by decide, _, written, rfl,
    ?_⟩
  exact run_kvGet_plain_refused ready.accepts (by decide) refused

end Nvmkv
