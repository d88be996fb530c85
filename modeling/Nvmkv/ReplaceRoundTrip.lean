import Nvmkv.ExactReads

/-!
# The round trip of a replacement

A put with replacement prepares a trim vector when the new value has fewer
sectors than the old one, and then its write vectors; but the batch is as long
as the count announced for the write vectors alone. So every trim vector pushes
a write vector out of the batch. `replace_round_trip_iff` says for which states
and lengths the round trip works for all contents of the new value: all vectors
are handed over and every reading with room for the value delivers it.

The other conditions concern the count itself, which is computed by masking, an
expiry date that has wrapped, a cache that remembers an address behind one that
holds the key, and exact readings that are cut short on their way.
-/

namespace Nvmkv

variable {ι : Type} {store : NvmKvStore}

/-- What a cache remembers of a key is an address at which the key is looked for
and a length that was accepted. -/
def CacheSound (store : NvmKvStore) (table : NvmKvCacheTable) : Prop :=
  ∀ slot, (table slot).key ≠ [] →
    (table slot).lba ∈ store.probes (table slot).poolId (table slot).key ∧
      (table slot).valueLen ≤ nvmKvMaxValueSize

/-- A new cache remembers nothing. -/
theorem cacheSound_initial (store : NvmKvStore) : CacheSound store .initial :=
  fun _ nonempty => absurd rfl nonempty

/-- An insertion of an accepted pair at one of its addresses keeps the cache sound. -/
theorem CacheSound.put {table : NvmKvCacheTable} (sound : CacheSound store table) {bits : Nat}
    {key : List UInt8} {poolId : UInt32} {valueLen absExpiry genCount lba time : Nat}
    {context : NvmKvCacheContext} (nonempty : key ≠ []) (probed : lba ∈ store.probes poolId key)
    (bounded : valueLen ≤ nvmKvMaxValueSize) :
    CacheSound store
      (kvCachePut bits table key poolId valueLen absExpiry genCount lba time context) := by
  obtain ⟨slot, entry, put, sameKey, samePool, length, address⟩ :=
    kvCachePut_entry bits table key poolId valueLen absExpiry genCount lba time context
  rw [put]
  intro other
  by_cases here : other = slot
  · subst here
    rw [Function.update_self, sameKey, samePool, length]
    refine fun _ => ⟨?_, bounded⟩
    rcases address with given | ⟨kept, oldKey, oldPool⟩
    · rw [given]
      exact probed
    · have old := (sound other (by rw [oldKey]; exact nonempty)).1
      rwa [oldKey, oldPool, ← kept] at old
  · rw [Function.update_of_ne here]
    exact sound other

/-- A cache that has emptied entries and changed no other one stays sound. -/
theorem CacheSound.emptied {table after : NvmKvCacheTable} (sound : CacheSound store table)
    (kept : ∀ slot, after slot = table slot ∨ (after slot).key = []) : CacheSound store after := by
  intro slot nonempty
  rcases kept slot with same | empty
  · rw [same] at nonempty ⊢
    exact sound slot nonempty
  · exact absurd empty nonempty

/-- A deletion empties an entry. -/
theorem CacheSound.delete {table : NvmKvCacheTable} (sound : CacheSound store table) (bits : Nat)
    (key : List UInt8) (poolId : UInt32) :
    CacheSound store (kvCacheDelete bits table key poolId).2 :=
  sound.emptied (kvCacheDelete_entry bits table key poolId)

/-- What is found in a sound cache is one of the key's addresses, with an accepted length. -/
theorem CacheSound.found {table : NvmKvCacheTable} (sound : CacheSound store table) {bits : Nat}
    {key : List UInt8} {poolId : UInt32} {checksExpiry : Bool} {time : Nat}
    {context : NvmKvCacheContext} (nonempty : key ≠ [])
    (found : (kvCacheGet bits table key poolId checksExpiry time) = (true, context)) :
    context.contextEntry.lba ∈ store.probes poolId key ∧
      context.contextEntry.valueLen ≤ nvmKvMaxValueSize := by
  obtain ⟨_, ⟨slot, entry⟩, sameKey, samePool⟩ := kvCacheGet_found found
  have remembered := sound slot (by rw [← entry, sameKey]; exact nonempty)
  rwa [← entry, sameKey, samePool] at remembered

/-- The answer of a sound cache. -/
theorem cacheAnswer_sound {state : StoreState ι} {poolId : UInt32} {key : List UInt8}
    {context : NvmKvCacheContext} (sound : CacheSound store state.cache) (nonempty : key ≠ [])
    (answered : cacheAnswer store state poolId key = (true, context)) :
    context.contextEntry.lba ∈ store.probes poolId key ∧
      context.contextEntry.valueLen ≤ nvmKvMaxValueSize := by
  unfold cacheAnswer at answered
  split at answered
  · exact sound.found nonempty answered
  · simp at answered

/-- A put is written at a probe address of its key. -/
theorem putTarget_probed {state : StoreState ι} {poolId : UInt32} {pair : NvmKvIovec}
    {lba trimLen : Nat} (sound : CacheSound store state.cache) (nonempty : pair.key ≠ [])
    (target : putTarget store state poolId pair = some (lba, trimLen)) :
    lba ∈ store.probes poolId pair.key := by
  unfold putTarget at target
  split at target
  rename_i found context answered
  split at target
  · rename_i hit
    subst hit
    simp only [Option.some.injEq, Prod.mk.injEq] at target
    rw [← target.1]
    exact (cacheAnswer_sound sound nonempty answered).1
  · obtain ⟨earlier, later, split, _⟩ := place_target target
    rw [split]
    exact List.mem_append_right _ List.mem_cons_self

/-- The value length recorded at an address that a put with replacement finds: none
where nothing is held and none of an expired pair. -/
def placedLength (store : NvmKvStore) (clock : Nat) (media : Media) (lba : Nat) : Nat :=
  if windowFree store media lba || pairExpired store clock (storedHeader store media lba) then 0
  else (storedHeader store media lba).valueLen

/-- Where a put with replacement goes: to the address that the cache remembers, or
to the first probe address that is free or holds the key. -/
def replaceAddress (store : NvmKvStore) (state : StoreState ι) (poolId : UInt32)
    (key : List UInt8) : Option Nat :=
  let (found, context) := cacheAnswer store state poolId key
  if found then some context.contextEntry.lba
  else (store.probes poolId key).find? fun lba =>
    windowFree store state.media lba || holds store state.media poolId key lba

/-- The value length of the pair that a put replaces, as the cache or the media
have it. -/
def replacedLength (store : NvmKvStore) (state : StoreState ι) (poolId : UInt32)
    (key : List UInt8) : Nat :=
  let (found, context) := cacheAnswer store state poolId key
  if found then context.contextEntry.valueLen
  else ((replaceAddress store state poolId key).map
    (placedLength store state.clock state.media)).getD 0

/-- The search of a put with replacement ends at the first address that is free or
holds the key. -/
theorem place_replace {clock valueLen : Nat} {media : Media} {poolId : UInt32} {key : List UInt8}
    {lbas : List Nat} :
    (place store clock media poolId key true lbas).target store media valueLen =
      (lbas.find? fun lba => windowFree store media lba || holds store media poolId key lba).map
        fun lba => (lba, if valueLen < placedLength store clock media lba
          then placedLength store clock media lba else 0) := by
  induction lbas with
  | nil => rfl
  | cons lba rest inductionHypothesis =>
    cases free : windowFree store media lba with
    | true =>
      simp only [place, free, if_true, Place.target, List.find?_cons, Bool.true_or,
        Option.map_some, placedLength, Nat.not_lt_zero, if_false]
    | false =>
      cases held : holds store media poolId key lba with
      | true =>
        cases expired : pairExpired store clock (storedHeader store media lba) <;>
          simp [place, free, held, expired, Place.target, placedLength, replacedLen]
      | false =>
        simp only [place, free, held, Bool.false_eq_true, if_false, List.find?_cons, Bool.or_self]
        exact inductionHypothesis

/-- A put that replaces goes to the address where a replacement is placed, and its trim is as long
as the replaced value when the new one is shorter. -/
theorem putTarget_replace {state : StoreState ι} {poolId : UInt32} {pair : NvmKvIovec}
    (replaces : pair.replace = true) :
    putTarget store state poolId pair = (replaceAddress store state poolId pair.key).map fun lba =>
      (lba, if pair.valueLen < replacedLength store state poolId pair.key
        then replacedLength store state poolId pair.key else 0) := by
  unfold putTarget replacedLength
  cases answered : cacheAnswer store state poolId pair.key with
  | mk found context =>
    cases found with
    | true => simp only [replaceAddress, answered, if_true, Option.map_some]
    | false =>
      simp only [replaceAddress, answered, Bool.false_eq_true, if_false, putPlace, replaces,
        place_replace]
      cases (store.probes poolId pair.key).find? fun lba =>
        windowFree store state.media lba || holds store state.media poolId pair.key lba <;> rfl

/-- Everything that a put needs to be written at an address. None of it depends on
the bytes of the value. -/
structure PutReady (store : NvmKvStore) (state : StoreState ι) (poolId : UInt32)
    (pair : NvmKvIovec) (allocation : Allocation) (memory : Nat → NvmIovec)
    (trims : List NvmIovec) (lba trimLen : Nat) : Prop where
  accepted : putAccepted store state poolId pair = true
  allows : cacheRefuses store state poolId pair = false
  allocated : ∃ unused, kvAllocForWrite store.capabilities pair.key.length pair.value
    pair.valueLen allocation.buf =
      .ok (writeLayout store.capabilities pair.key.length pair.value pair.valueLen, unused)
  target : putTarget store state poolId pair = some (lba, trimLen)
  array : allocation.iovec = some memory
  trimmed : kvProcessForTrim store.capabilities pair.valueLen trimLen lba = .ok trims

/-- The pair with other bytes in the same buffer of the caller. -/
def NvmKvIovec.withBytes (pair : NvmKvIovec) (bytes : Region) : NvmKvIovec :=
  { pair with value := ⟨pair.value.address, bytes⟩ }

/-- Other bytes of the value do not change its length. -/
@[simp] theorem NvmKvIovec.withBytes_valueLen (pair : NvmKvIovec) (bytes : Region) :
    (pair.withBytes bytes).valueLen = pair.valueLen := rfl

/-- Nor its key. -/
@[simp] theorem NvmKvIovec.withBytes_key (pair : NvmKvIovec) (bytes : Region) :
    (pair.withBytes bytes).key = pair.key := rfl

namespace PutReady

variable {thread : ι} {state : StoreState ι} {poolId : UInt32} {pair : NvmKvIovec}
  {allocation : Allocation} {memory : Nat → NvmIovec} {trims : List NvmIovec} {lba trimLen : Nat}

/-- What a put has ready for one content it has for every other one. -/
theorem withBytes
    (ready : PutReady store state poolId pair allocation memory trims lba trimLen)
    (bytes : Region) :
    PutReady store state poolId (pair.withBytes bytes) allocation memory trims lba trimLen :=
  ⟨ready.accepted, ready.allows, ready.allocated, ready.target, ready.array, ready.trimmed⟩

/-- A put that succeeds had everything it needed. -/
theorem of_run {after : StoreState ι} {length : Nat} (free : ∀ lba, state.safeLbaList lba = none)
    (ran : (kvPut store poolId pair allocation).run (answer store thread) state =
      some (.ok length, after)) :
    ∃ memory trims lba trimLen,
      PutReady store state poolId pair allocation memory trims lba trimLen := by
  obtain ⟨result, reached, returned, effect⟩ :=
    run_kvPut store thread state free poolId pair allocation
  rw [ran, Option.some.injEq, Prod.mk.injEq] at returned
  obtain ⟨rfl, rfl⟩ := returned
  cases effect with
  | written layout unused buf memory trims lba trimLen accepted allows allocated target array
      trimmed =>
    have same := (layout_of_alloc allocated).1
    subst same
    exact ⟨memory, trims, lba, trimLen, accepted, allows, ⟨unused, allocated⟩, target, array,
      trimmed⟩

/-- A put that has everything it needs is written. -/
theorem run (ready : PutReady store state poolId pair allocation memory trims lba trimLen)
    (thread : ι) (free : ∀ lba, state.safeLbaList lba = none) :
    ∃ buf, (kvPut store poolId pair allocation).run (answer store thread) state =
      some (.ok pair.valueLen, state.afterPut store thread poolId pair (handedIovec memory
        (trims ++ putIovec store poolId pair
          (writeLayout store.capabilities pair.key.length pair.value pair.valueLen) buf
          state.clock lba)
        (writeLayout store.capabilities pair.key.length pair.value pair.valueLen).iovCount)
        lba) := by
  obtain ⟨result, reached, returned, effect⟩ :=
    run_kvPut store thread state free poolId pair allocation
  obtain ⟨unused, allocated⟩ := ready.allocated
  obtain ⟨success, buf, after⟩ := effect.of_written ready.accepted ready.allows allocated
    ready.target ready.array ready.trimmed
  exact ⟨buf, by rw [returned, success, after]⟩

/-- The lengths of such a put are accepted: neither is zero, and neither is above its limit. -/
theorem lengths (ready : PutReady store state poolId pair allocation memory trims lba trimLen) :
    (0 < pair.key.length ∧ pair.key.length ≤ nvmKvMaxKeySize) ∧ 0 < pair.valueLen ∧
      pair.valueLen ≤ nvmKvMaxValueSize := by
  have accepted := ready.accepted
  simp only [putAccepted, Bool.and_eq_true] at accepted
  have value := of_decide_eq_true accepted.2
  exact ⟨of_decide_eq_true accepted.1.2, value.1, value.2.1⟩

/-- So a lookup of its key is accepted, too. -/
theorem accepts (ready : PutReady store state poolId pair allocation memory trims lba trimLen) :
    keyAccepted state poolId pair.key = true := by
  have accepted := ready.accepted
  simp only [putAccepted, Bool.and_eq_true] at accepted
  simp only [keyAccepted, Bool.and_eq_true]
  exact accepted.1

/-- A put does not change what is accepted. -/
theorem accepts_after
    (ready : PutReady store state poolId pair allocation memory trims lba trimLen)
    (iovec : List NvmIovec) :
    keyAccepted (state.afterPut store thread poolId pair iovec lba) poolId pair.key = true :=
  ready.accepts

end PutReady

/-- The length of what is written from one buffer after the header sector, or of
that sector when the value is in it. -/
def bufferLength (capabilities : NvmKvStoreCapabilities) (keyLen valueLen : Nat) : Nat :=
  if fitsSector capabilities keyLen valueLen then capabilities.nvmSectorSize
  else roundedLen capabilities valueLen

/-- The vectors announced for a length are as many as it takes. -/
def CountsVectors (capabilities : NvmKvStoreCapabilities) (length : Nat) : Prop :=
  vectorsAnnounced capabilities length = vectorsFor capabilities length

/-- Whether the code counts the vectors right can be computed. -/
instance (capabilities : NvmKvStoreCapabilities) (length : Nat) :
    Decidable (CountsVectors capabilities length) := inferInstanceAs (Decidable (_ = _))

/-- Counting works on a device whose limit for a vector is a power of two. -/
theorem countsVectors_pow {capabilities : NvmKvStoreCapabilities} {bits length : Nat}
    (limit : capabilities.maxWriteSize = 2 ^ bits) (short : bits < 64)
    (bounded : length + 2 ^ bits ≤ 2 ^ 64) : CountsVectors capabilities length := by
  unfold CountsVectors vectorsAnnounced vectorsFor
  rw [limit, round_upto_pow length bits short bounded, Nat.mul_div_cancel _ (Nat.two_pow_pos bits)]

/-- A pair that fits its sector has the length of the sector. -/
theorem roundedLen_fits {capabilities : NvmKvStoreCapabilities} {keyLen valueLen : Nat}
    (fits : fitsSector capabilities keyLen valueLen) :
    roundedLen capabilities (mKvHeaderSize + keyLen + valueLen) = capabilities.nvmSectorSize := by
  have header : mKvHeaderSize = 40 := rfl
  obtain ⟨bits, _, upper, size⟩ := capabilities.sector_pow
  have small : capabilities.nvmSectorSize ≤ 2 ^ 12 := by
    rw [size]
    exact Nat.pow_le_pow_right (by norm_num) upper
  unfold fitsSector at fits
  have one : valueSectors capabilities (mKvHeaderSize + keyLen + valueLen) = 1 := by
    apply Nat.div_eq_of_lt_le <;> omega
  rw [roundedLen_eq _ (by omega), one, Nat.one_mul]

/-- For a pair that fits its sector, and from an aligned buffer, the announced and the
filled vectors differ as the counts for the length of the buffer do. -/
theorem layout_counts {capabilities : NvmKvStoreCapabilities} {keyLen valueLen : Nat}
    {value : Memory} (layout : fitsSector capabilities keyLen valueLen ∨
      value.address % capabilities.nvmSectorSize = 0) :
    let layout := writeLayout capabilities keyLen value valueLen
    let more := if fitsSector capabilities keyLen valueLen then 0 else 1
    layout.iovCount = more + vectorsAnnounced capabilities
        (bufferLength capabilities keyLen valueLen) ∧
      vectorsFilled capabilities layout valueLen = more + vectorsFor capabilities
        (bufferLength capabilities keyLen valueLen) := by
  unfold bufferLength
  by_cases fits : fitsSector capabilities keyLen valueLen
  · simp only [writeLayout_fits value fits, if_pos fits, roundedLen_fits fits, Nat.zero_add,
      vectorsFilled, Bool.false_eq_true, if_false, vectorsFor_sector, and_self]
  · simp only [writeLayout_aligned fits (layout.resolve_left fits), if_neg fits, vectorsFilled,
      if_true, and_self]

/-- The probe addresses visited before the one that a put with replacement goes to. -/
def addressesBefore (store : NvmKvStore) (state : StoreState ι) (poolId : UInt32)
    (key : List UInt8) : List Nat :=
  (store.probes poolId key).takeWhile fun lba => replaceAddress store state poolId key ≠ some lba

/-- The addresses of a key are those before the one that is placed, that one, and the rest; it is
not among those before. -/
theorem addressesBefore_split {state : StoreState ι} {poolId : UInt32} {key : List UInt8}
    {lba : Nat} (target : replaceAddress store state poolId key = some lba)
    (probed : lba ∈ store.probes poolId key) :
    ∃ later, store.probes poolId key = addressesBefore store state poolId key ++ lba :: later ∧
      ∀ passed, passed ∈ addressesBefore store state poolId key → passed ≠ lba := by
  obtain ⟨earlier, later, split, absent⟩ := List.eq_append_cons_of_mem probed
  have before : addressesBefore store state poolId key = earlier := by
    unfold addressesBefore
    rw [split, target, List.takeWhile_append_of_pos, List.takeWhile_cons_of_neg, List.append_nil]
    · simp
    · intro passed member
      refine decide_eq_true fun same => absent ?_
      rwa [Option.some.inj same]
  refine ⟨later, by rw [before, split], ?_⟩
  intro passed member same
  rw [before, same] at member
  exact absent member

/-- Two different probe addresses of a key have windows of their own. -/
theorem windows_apart {poolId : UInt32} {key : List UInt8} {a b : Nat} (nonempty : key ≠ [])
    (left : a ∈ store.probes poolId key) (right : b ∈ store.probes poolId key) (other : a ≠ b) :
    a + 2 ^ store.valueBits ≤ b ∨ b + 2 ^ store.valueBits ≤ a := by
  rcases Nat.le_total a b with near | near
  · refine .inl (Nat.le_of_not_lt fun inside => ?_)
    exact other (probes_apart nonempty nonempty left right near inside)
  · refine .inr (Nat.le_of_not_lt fun inside => ?_)
    exact other (probes_apart nonempty nonempty right left near inside).symm

/-- The vectors that a put prepared were handed to the device in one batch, and the
device takes that many. -/
def HandsOverAll (store : NvmKvStore) (thread : ι) (state : StoreState ι) (poolId : UInt32)
    (pair : NvmKvIovec) (after : StoreState ι) : Prop :=
  ∃ lba trimLen trims buf, putTarget store state poolId pair = some (lba, trimLen) ∧
    kvProcessForTrim store.capabilities pair.valueLen trimLen lba = .ok trims ∧
    let prepared := trims ++ putIovec store poolId pair
      (writeLayout store.capabilities pair.key.length pair.value pair.valueLen) buf state.clock lba
    after.log = state.log ++ [(thread, prepared)] ∧
      prepared.length ≤ store.capabilities.nvmMaxNumIovs

/-- Every reading of the key that has room for its value delivers the bytes that
were put and their length. -/
def Delivers (store : NvmKvStore) (thread : ι) (state : StoreState ι) (poolId : UInt32)
    (pair : NvmKvIovec) (readExact : Bool) : Prop :=
  ∀ (value : Memory) (valueLen : Nat) (readBuf : Region),
    kvValidateValue store true valueLen = true → pair.valueLen ≤ valueLen →
    Readable store (getBuffers store value valueLen readBuf) →
    ∃ got final, (kvGet store poolId pair.key value valueLen readExact (some readBuf)).run
        (answer store thread) state = some (.ok got, final) ∧
      got.length = pair.valueLen ∧
      got.value.slice 0 pair.valueLen = pair.value.bytes.slice 0 pair.valueLen

/-- The round trip of a put: if it succeeds, it hands over all its vectors and the
value is delivered afterwards. -/
def RoundTrips (store : NvmKvStore) (thread : ι) (state : StoreState ι) (poolId : UInt32)
    (pair : NvmKvIovec) (allocation : Allocation) (readExact : Bool) : Prop :=
  ∀ length after, (kvPut store poolId pair allocation).run (answer store thread) state =
      some (.ok length, after) →
    HandsOverAll store thread state poolId pair after ∧
      Delivers store thread after poolId pair readExact

/-- Some reading has room for a value of the length. -/
def Gettable (store : NvmKvStore) (valueLen : Nat) : Prop :=
  2 ≤ store.capabilities.nvmMaxNumIovs ∧
    valueSectors store.capabilities valueLen * store.sectorSize ≤ nvmKvMaxValueSize

/-- A buffer of whole sectors with room for a value has room for its sectors. -/
theorem gettable_of_accepted {value : Memory} {readBuf : Region} {length valueLen : Nat}
    (valid : kvValidateValue store true valueLen = true) (room : length ≤ valueLen)
    (readable : Readable store (getBuffers store value valueLen readBuf)) :
    Gettable store length := by
  have positive := store.sector_positive
  obtain ⟨_, bounded, whole⟩ := of_decide_eq_true valid
  obtain ⟨sectors, product⟩ := Nat.dvd_of_mod_eq_zero (whole rfl)
  refine ⟨readable.fits, ?_⟩
  have covers : valueSectors store.capabilities length * store.sectorSize <
      length + store.sectorSize := (valueSectors_covers store.capabilities length).2
  have less : valueSectors store.capabilities length * store.sectorSize <
      (sectors + 1) * store.sectorSize := by
    rw [Nat.add_mul, Nat.one_mul, Nat.mul_comm sectors, ← product]
    omega
  have few := Nat.lt_of_mul_lt_mul_right less
  calc valueSectors store.capabilities length * store.sectorSize
      ≤ sectors * store.sectorSize := Nat.mul_le_mul_right _ (by omega)
    _ = valueLen := by rw [product, Nat.mul_comm]
    _ ≤ nvmKvMaxValueSize := bounded

/-- When the round trip of a replacement works for all contents of the new value. -/
structure ReplaceFits (store : NvmKvStore) (state : StoreState ι) (poolId : UInt32)
    (pair : NvmKvIovec) (readExact : Bool) : Prop where
  notFewer : valueSectors store.capabilities (replacedLength store state poolId pair.key) ≤
    valueSectors store.capabilities pair.valueLen
  counted : CountsVectors store.capabilities
    (bufferLength store.capabilities pair.key.length pair.valueLen)
  found : Gettable store pair.valueLen → expiresAtOnce store pair state.clock = false ∧
    (∀ passed, passed ∈ addressesBefore store state poolId pair.key →
      holds store state.media poolId pair.key passed = false) ∧
    (readExact = true → fitsSector store.capabilities pair.key.length pair.valueLen ∨
      RunsReach store state.media pair.valueLen (addressesBefore store state poolId pair.key))

/-- The length of the pair at an address is a number of 32 bits. -/
theorem placedLength_word {clock : Nat} {media : Media} {lba : Nat} :
    placedLength store clock media lba < 2 ^ 32 := by
  unfold placedLength
  split
  · exact Nat.two_pow_pos 32
  · exact Region.word_lt _ _

/-- The old length is a 32-bit number, wherever it comes from. -/
theorem replacedLength_word {state : StoreState ι} {poolId : UInt32} {key : List UInt8}
    (sound : CacheSound store state.cache) (nonempty : key ≠ []) :
    replacedLength store state poolId key < 2 ^ 32 := by
  unfold replacedLength
  split
  rename_i found context answered
  split
  · rename_i hit
    subst hit
    exact (cacheAnswer_sound sound nonempty answered).2.trans_lt (by decide)
  · cases replaceAddress store state poolId key with
    | none => exact Nat.two_pow_pos 32
    | some lba => exact placedLength_word

section Replacement

variable {thread : ι} {state : StoreState ι} {poolId : UInt32} {pair : NvmKvIovec}
  {allocation : Allocation} {memory : Nat → NvmIovec} {trims : List NvmIovec} {lba trimLen : Nat}

/-- There is no trim vector exactly when the new value has no fewer sectors. -/
theorem PutReady.trims_nil_iff
    (ready : PutReady store state poolId pair allocation memory trims lba trimLen)
    (sound : CacheSound store state.cache) (replaces : pair.replace = true) :
    trims = [] ↔ valueSectors store.capabilities (replacedLength store state poolId pair.key) ≤
      valueSectors store.capabilities pair.valueLen := by
  obtain ⟨⟨nonempty, _⟩, positive, bounded⟩ := ready.lengths
  have word := @replacedLength_word _ store state poolId pair.key sound
    (List.length_pos_iff.mp nonempty)
  have length : trimLen = if pair.valueLen < replacedLength store state poolId pair.key
      then replacedLength store state poolId pair.key else 0 := by
    have target := ready.target
    rw [putTarget_replace replaces, Option.map_eq_some_iff] at target
    obtain ⟨_, _, same⟩ := target
    exact (Prod.mk.inj same).2.symm
  generalize replacedLength store state poolId pair.key = old at *
  have trimmed := kvProcessForTrim_eq positive bounded (by split at length <;> omega) ready.trimmed
    (by split at length <;> omega)
  have order : old ≤ pair.valueLen → valueSectors store.capabilities old ≤
      valueSectors store.capabilities pair.valueLen :=
    fun shorter => Nat.div_le_div_right (by omega)
  by_cases longer : pair.valueLen < old
  · rw [if_pos longer] at length
    subst length
    by_cases more : valueSectors store.capabilities pair.valueLen <
        valueSectors store.capabilities trimLen
    · rw [if_pos more] at trimmed
      simp only [trimmed, List.cons_ne_nil, false_iff]
      omega
    · rw [if_neg more] at trimmed
      simp only [trimmed, true_iff]
      omega
  · rw [if_neg longer] at length
    have none : ¬valueSectors store.capabilities pair.valueLen <
        valueSectors store.capabilities trimLen := by
      rw [length]
      exact Nat.not_lt.mpr (Nat.div_le_div_right (by omega))
    rw [if_neg none] at trimmed
    simp only [trimmed, true_iff]
    exact order (by omega)

/-- All vectors are handed over exactly when there is no trim vector and the count
is right: a batch is never longer than its write vectors. -/
theorem PutReady.handsOverAll_iff
    (ready : PutReady store state poolId pair allocation memory trims lba trimLen)
    (aligned : pair.value.address % store.sectorSize = 0) (buf : Region) :
    HandsOverAll store thread state poolId pair (state.afterPut store thread poolId pair
      (handedIovec memory (trims ++ putIovec store poolId pair
        (writeLayout store.capabilities pair.key.length pair.value pair.valueLen) buf
        state.clock lba)
      (writeLayout store.capabilities pair.key.length pair.value pair.valueLen).iovCount) lba) ↔
    trims = [] ∧ CountsVectors store.capabilities
      (bufferLength store.capabilities pair.key.length pair.valueLen) := by
  obtain ⟨announced, filled⟩ := @layout_counts store.capabilities pair.key.length pair.valueLen
    pair.value (.inr aligned)
  have least := vectorsAnnounced_le store.capabilities
    (bufferLength store.capabilities pair.key.length pair.valueLen)
  obtain ⟨unused, allocated⟩ := ready.allocated
  have few := (layout_of_alloc allocated).2
  constructor
  · rintro ⟨otherLba, otherLen, otherTrims, otherBuf, target, trimmed, log, _⟩
    rw [ready.target, Option.some.injEq, Prod.mk.injEq] at target
    obtain ⟨rfl, rfl⟩ := target
    rw [ready.trimmed, Except.ok.injEq] at trimmed
    subst trimmed
    simp only [StoreState.afterPut, List.append_cancel_left_eq, List.cons.injEq, Prod.mk.injEq,
      true_and, and_true] at log
    have count := congrArg List.length log
    simp only [handedIovec, List.length_map, List.length_range, List.length_append, putIovec,
      pairIovec_length, announced, filled] at count
    refine ⟨List.length_eq_zero_iff.mp (by omega), ?_⟩
    unfold CountsVectors
    omega
  · rintro ⟨none, counted⟩
    subst none
    have length : (putIovec store poolId pair (writeLayout store.capabilities pair.key.length
        pair.value pair.valueLen) buf state.clock lba).length =
        (writeLayout store.capabilities pair.key.length pair.value pair.valueLen).iovCount := by
      rw [putIovec, pairIovec_length, announced, filled, counted]
    refine ⟨lba, trimLen, [], buf, ready.target, ready.trimmed, ?_, ?_⟩
    · simp only [StoreState.afterPut, List.nil_append]
      rw [handedIovec_take memory _ (Nat.le_of_eq length.symm), ← length, List.take_length]
    · rw [List.nil_append, length]
      exact few

/-- The media after a put that trimmed nothing and counted its write vectors right. -/
theorem PutReady.media_after_counted
    (ready : PutReady store state poolId pair allocation memory [] lba trimLen)
    (counted : (writeLayout store.capabilities pair.key.length pair.value pair.valueLen).iovCount =
      vectorsFilled store.capabilities
        (writeLayout store.capabilities pair.key.length pair.value pair.valueLen) pair.valueLen)
    (buf : Region) :
    (state.afterPut store thread poolId pair (handedIovec memory ([] ++ putIovec store poolId pair
        (writeLayout store.capabilities pair.key.length pair.value pair.valueLen) buf
        state.clock lba)
      (writeLayout store.capabilities pair.key.length pair.value pair.valueLen).iovCount)
      lba).media =
    pairWritten store.capabilities
      (writeLayout store.capabilities pair.key.length pair.value pair.valueLen)
      (putHeader store poolId pair
        (writeLayout store.capabilities pair.key.length pair.value pair.valueLen) buf state.clock)
      pair.value pair.valueLen lba state.media := by
  have limit : (nvmKvMaxValueSize : Nat) = 1047552 := rfl
  obtain ⟨_, _, bounded⟩ := ready.lengths
  have length : (putIovec store poolId pair (writeLayout store.capabilities pair.key.length
      pair.value pair.valueLen) buf state.clock lba).length =
      (writeLayout store.capabilities pair.key.length pair.value pair.valueLen).iovCount := by
    rw [putIovec, pairIovec_length, counted]
  simp only [StoreState.afterPut, List.nil_append]
  rw [handedIovec_take memory _ (Nat.le_of_eq length.symm), ← length, List.take_length]
  exact pairIovec_applied _ _ _ (by omega) _ _

/-- The media after a put that handed over its write vectors and nothing else. -/
theorem PutReady.media_after
    (ready : PutReady store state poolId pair allocation memory [] lba trimLen)
    (layout : fitsSector store.capabilities pair.key.length pair.valueLen ∨
      pair.value.address % store.sectorSize = 0)
    (counted : CountsVectors store.capabilities
      (bufferLength store.capabilities pair.key.length pair.valueLen)) (buf : Region) :
    (state.afterPut store thread poolId pair (handedIovec memory ([] ++ putIovec store poolId pair
        (writeLayout store.capabilities pair.key.length pair.value pair.valueLen) buf
        state.clock lba)
      (writeLayout store.capabilities pair.key.length pair.value pair.valueLen).iovCount)
      lba).media =
    pairWritten store.capabilities
      (writeLayout store.capabilities pair.key.length pair.value pair.valueLen)
      (putHeader store poolId pair
        (writeLayout store.capabilities pair.key.length pair.value pair.valueLen) buf state.clock)
      pair.value pair.valueLen lba state.media := by
  obtain ⟨announced, filled⟩ := @layout_counts store.capabilities pair.key.length pair.valueLen
    pair.value layout
  exact ready.media_after_counted (by rw [announced, filled, counted]) buf

/-- A pair whose write vectors were all written lies complete at its address. -/
theorem completePair_of_written {buf : Region} {clock : Nat} {media after : Media}
    (written : after = pairWritten store.capabilities
      (writeLayout store.capabilities pair.key.length pair.value pair.valueLen)
      (putHeader store poolId pair
        (writeLayout store.capabilities pair.key.length pair.value pair.valueLen) buf clock)
      pair.value pair.valueLen lba media) :
    CompletePair store poolId pair buf clock lba after := by
  intro l lower upper
  conv_lhs => rw [written]
  exact pairWritten_congr _ _ _ _ _ ⟨lower, upper⟩

/-- Whether the header of a put pair counts as expired at the time of the put. -/
theorem pairExpired_complete {buf : Region} {clock : Nat} {media : Media}
    (complete : CompletePair store poolId pair buf clock lba media)
    (short : pair.key.length ≤ nvmKvMaxKeySize) (bounded : pair.valueLen ≤ nvmKvMaxValueSize) :
    pairExpired store clock (storedHeader store media lba) =
      expiresAtOnce store pair clock := by
  obtain ⟨_, _, expiry⟩ := @readHeader_firstSector store poolId pair buf clock short bounded
  rw [storedHeader_sector complete.first, pairExpired, expiry]
  rfl

/-- The windows before the address written to are what they were. -/
theorem earlier_windows {buf : Region} {clock : Nat} {media after : Media}
    {earlier later : List Nat}
    (nonempty : pair.key ≠ []) (bounded : pair.valueLen ≤ nvmKvMaxValueSize)
    (split : store.probes poolId pair.key = earlier ++ lba :: later)
    (other : ∀ passed, passed ∈ earlier → passed ≠ lba)
    (written : after = pairWritten store.capabilities
      (writeLayout store.capabilities pair.key.length pair.value pair.valueLen)
      (putHeader store poolId pair
        (writeLayout store.capabilities pair.key.length pair.value pair.valueLen) buf clock)
      pair.value pair.valueLen lba media) :
    ∀ passed, passed ∈ earlier → ∀ l, passed ≤ l → l < passed + 2 ^ store.valueBits →
      after l = media l := by
  intro passed member l lower upper
  have inside := @sectorsWritten_le store
    (writeLayout store.capabilities pair.key.length pair.value pair.valueLen) _ bounded
  have apart := windows_apart nonempty
    (by rw [split]; exact List.mem_append_left _ member)
    (by rw [split]; exact List.mem_append_right _ List.mem_cons_self) (other passed member)
  rw [written]
  exact pairWritten_outside _ _ _ _ (by omega)

/-- The address written to is the one that the state determines. -/
theorem PutReady.address
    (ready : PutReady store state poolId pair allocation memory trims lba trimLen)
    (replaces : pair.replace = true) :
    replaceAddress store state poolId pair.key = some lba := by
  have target := ready.target
  rw [putTarget_replace replaces, Option.map_eq_some_iff] at target
  obtain ⟨_, address, same⟩ := target
  rw [address, (Prod.mk.inj same).1]

/-- A replacement that fits delivers its value. -/
theorem PutReady.delivers
    (ready : PutReady store state poolId pair allocation memory trims lba trimLen)
    (sound : CacheSound store state.cache) (replaces : pair.replace = true)
    (aligned : pair.value.address % store.sectorSize = 0) {readExact : Bool}
    (fits : ReplaceFits store state poolId pair readExact) {buf : Region} {after : StoreState ι}
    (written : after.media = pairWritten store.capabilities
      (writeLayout store.capabilities pair.key.length pair.value pair.valueLen)
      (putHeader store poolId pair
        (writeLayout store.capabilities pair.key.length pair.value pair.valueLen) buf state.clock)
      pair.value pair.valueLen lba state.media)
    (sameClock : after.clock = state.clock) (accepted : keyAccepted after poolId pair.key = true) :
    Delivers store thread after poolId pair readExact := by
  obtain ⟨⟨some, short⟩, positive, bounded⟩ := ready.lengths
  have nonempty : pair.key ≠ [] := List.length_pos_iff.mp some
  obtain ⟨later, split, other⟩ := addressesBefore_split (ready.address replaces)
    (putTarget_probed sound nonempty ready.target)
  have windows := earlier_windows nonempty bounded split other written
  have complete := completePair_of_written written
  intro value valueLen readBuf valid room readable
  obtain ⟨lasting, missed, reaches⟩ := fits.found (gettable_of_accepted valid room readable)
  have unheld : ∀ passed, passed ∈ addressesBefore store state poolId pair.key →
      holds store after.media poolId pair.key passed = false := by
    intro passed member
    have first := windows passed member passed le_rfl
      (Nat.lt_add_of_pos_right (Nat.two_pow_pos _))
    rw [holds_congr short first]
    exact missed passed member
  have unexpired : pairExpired store after.clock (storedHeader store after.media lba) = false := by
    rw [sameClock, pairExpired_complete complete short bounded]
    exact lasting
  have reach : readExact = true →
      fitsSector store.capabilities pair.key.length pair.valueLen ∨
      RunsReach store after.media pair.valueLen (addressesBefore store state poolId pair.key) := by
    intro exact
    refine (reaches exact).imp_right fun reach passed member mapped => ?_
    obtain ⟨ranges, free⟩ := windowFree_congr (windows passed member)
    rw [ranges]
    exact reach passed member (free ▸ mapped)
  obtain ⟨got, delivered, length, bytes, _⟩ := run_kvGet_complete thread accepted positive
    bounded complete (.inr aligned) split unheld unexpired valid readable room reach
  exact ⟨got, _, delivered, length, bytes⟩

/-- The media after a put of all write vectors of a pair, and the reading that asks
for the sectors of its value. -/
structure WrittenDelivers (store : NvmKvStore) (thread : ι) (state : StoreState ι)
    (poolId : UInt32) (pair : NvmKvIovec) (readExact : Bool) (lba : Nat) (buf : Region)
    (after : StoreState ι) : Prop where
  written : after.media = pairWritten store.capabilities
    (writeLayout store.capabilities pair.key.length pair.value pair.valueLen)
    (putHeader store poolId pair
      (writeLayout store.capabilities pair.key.length pair.value pair.valueLen) buf state.clock)
    pair.value pair.valueLen lba state.media
  sameClock : after.clock = state.clock
  accepted : keyAccepted after poolId pair.key = true
  delivers : Delivers store thread after poolId pair readExact

/-- The buffers of the reading that asks for the sectors of a value. -/
def sectorsBuffers (store : NvmKvStore) (valueLen : Nat) : ReadBuffers :=
  getBuffers store (poolBuffer fun _ => 0)
    (valueSectors store.capabilities valueLen * store.sectorSize) fun _ => 0

/-- The reading that asks for the sectors of the value is answered. -/
theorem Delivers.answered {readExact : Bool} {after : StoreState ι}
    (delivers : Delivers store thread after poolId pair readExact)
    (accepted : keyAccepted after poolId pair.key = true) (positive : 0 < pair.valueLen)
    (gettable : Gettable store pair.valueLen) :
    ∃ got, getAnswer store after poolId pair.key
        (valueSectors store.capabilities pair.valueLen * store.sectorSize) readExact
        (sectorsBuffers store pair.valueLen) = .ok got ∧
      got.value.slice 0 pair.valueLen = pair.value.bytes.slice 0 pair.valueLen := by
  obtain ⟨fits, bounded⟩ := gettable
  have room : pair.valueLen ≤ valueSectors store.capabilities pair.valueLen * store.sectorSize :=
    (valueSectors_covers store.capabilities pair.valueLen).1
  have valid : kvValidateValue store true
      (valueSectors store.capabilities pair.valueLen * store.sectorSize) = true :=
    decide_eq_true ⟨positive.trans_le room, bounded, fun _ => Nat.mul_mod_left _ _⟩
  have readable : Readable store (sectorsBuffers store pair.valueLen) :=
    ⟨fits, fun _ => Nat.zero_mod _⟩
  obtain ⟨got, final, ran, _, bytes⟩ := delivers _ _ _ valid room readable
  rw [run_kvGet store thread after accepted valid readable, Option.some.injEq,
    Prod.mk.injEq] at ran
  exact ⟨got, ran.1, bytes⟩

/-- Content that is delivered is returned by a reading of whole sectors, as long as they can be
asked for. -/
theorem WrittenDelivers.answered {readExact : Bool} {buf : Region} {after : StoreState ι}
    (done : WrittenDelivers store thread state poolId pair readExact lba buf after)
    (positive : 0 < pair.valueLen) (gettable : Gettable store pair.valueLen) :
    ∃ got, getAnswer store after poolId pair.key
        (valueSectors store.capabilities pair.valueLen * store.sectorSize) readExact
        (sectorsBuffers store pair.valueLen) = .ok got ∧
      got.value.slice 0 pair.valueLen = pair.value.bytes.slice 0 pair.valueLen :=
  done.delivers.answered done.accepted positive gettable

/-- Not all contents of a value can be delivered when one of its bytes is always the
same. -/
theorem not_all_delivered {length i : Nat} {byte : UInt8} (inside : i < length)
    (delivered : ∀ bytes : Region, ∃ got : Region,
      got.slice 0 length = bytes.slice 0 length ∧ got i = byte) : False := by
  have constant : ∀ other : UInt8, other = byte := by
    intro other
    obtain ⟨got, same, fixed⟩ := delivered fun _ => other
    rw [← fixed]
    exact (Region.eq_of_slice_eq same ⟨Nat.zero_le i, by omega⟩).symm
  have distinct : (0 : UInt8) ≠ 1 := by decide
  exact distinct ((constant 0).trans (constant 1).symm)

/-- What an answered reading delivers: the value of the first pair of the key, after
the rounds before it. -/
theorem getAnswer_value {after : StoreState ι} {key : List UInt8} {valueLen first : Nat}
    {readExact : Bool} {before behind : List Nat} {buffers : ReadBuffers} {got : GetResult}
    (split : store.probes poolId key = before ++ first :: behind)
    (unheld : ∀ passed, passed ∈ before → holds store after.media poolId key passed = false)
    (holder : holds store after.media poolId key first = true)
    (answered : getAnswer store after poolId key valueLen readExact buffers = .ok got) :
    pairExpired store after.clock (storedHeader store after.media first) = false ∧
      got.value = gotValue store after.media (readRound store after.media valueLen readExact first
        (passedRounds store after.media valueLen readExact before buffers)) first := by
  simp only [getAnswer, lookupLba_split split unheld holder] at answered
  split at answered
  · simp at answered
  · rename_i unexpired
    refine ⟨Bool.eq_false_iff.mpr unexpired, ?_⟩
    rw [← Except.ok.inj answered, getResult, split]
    simp only [readRounds_split unheld holder]

/-- When all contents are delivered, nothing before the address written to holds the key: a lookup
would end there, whatever was written. What the rounds up to that address leave does not depend on
the bytes. -/
theorem unheld_of_delivers {readExact : Bool} {earlier later : List Nat} (some : pair.key ≠ [])
    (short : pair.key.length ≤ nvmKvMaxKeySize) (positive : 0 < pair.valueLen)
    (bounded : pair.valueLen ≤ nvmKvMaxValueSize) (gettable : Gettable store pair.valueLen)
    (split : store.probes poolId pair.key = earlier ++ lba :: later)
    (other : ∀ passed, passed ∈ earlier → passed ≠ lba)
    (done : ∀ bytes, ∃ buf after, WrittenDelivers store thread state poolId
      (pair.withBytes bytes) readExact lba buf after) :
    ∀ passed, passed ∈ earlier → holds store state.media poolId pair.key passed = false := by
  by_contra held
  have found : (earlier.find? (holds store state.media poolId pair.key)).isSome := by
    rw [List.find?_isSome]
    push Not at held
    obtain ⟨passed, member, holder⟩ := held
    exact ⟨passed, member, by simpa using holder⟩
  obtain ⟨first, search⟩ := Option.isSome_iff_exists.mp found
  obtain ⟨holder, before, behind, parts, missed⟩ := List.find?_eq_some_iff_append.mp search
  have within := @withinWindow_getBuffers store
    (valueSectors store.capabilities pair.valueLen * store.sectorSize) (poolBuffer fun _ => 0)
    (fun _ => 0) gettable.2
  refine @not_all_delivered pair.valueLen 0 (gotValue store state.media
    (readRound store state.media (valueSectors store.capabilities pair.valueLen * store.sectorSize)
      readExact first (passedRounds store state.media
        (valueSectors store.capabilities pair.valueLen * store.sectorSize) readExact before
        (sectorsBuffers store pair.valueLen))) first 0) positive ?_
  intro bytes
  obtain ⟨buf, after, wrote⟩ := done bytes
  obtain ⟨got, answered, same⟩ := wrote.answered positive gettable
  refine ⟨got.value, same, ?_⟩
  have windows := @earlier_windows store poolId (pair.withBytes bytes) lba buf state.clock
    state.media after.media earlier later some bounded split other wrote.written
  have inEarlier : ∀ passed, passed ∈ before → passed ∈ earlier := by
    intro passed member
    rw [parts]
    exact List.mem_append_left _ member
  have firstEarlier : first ∈ earlier := by
    rw [parts]
    exact List.mem_append_right _ List.mem_cons_self
  have sector : ∀ passed, passed ∈ earlier → after.media passed = state.media passed :=
    fun passed member => windows passed member passed le_rfl
      (Nat.lt_add_of_pos_right (Nat.two_pow_pos _))
  have unheld : ∀ passed, passed ∈ before →
      holds store after.media poolId pair.key passed = false := by
    intro passed member
    rw [holds_congr short (sector passed (inEarlier passed member))]
    simpa using missed passed member
  have holds : holds store after.media poolId pair.key first = true := by
    rw [holds_congr short (sector first firstEarlier)]
    exact holder
  have ends : store.probes poolId pair.key = before ++ first :: (behind ++ lba :: later) := by
    rw [split, parts, List.append_assoc, List.cons_append]
  obtain ⟨_, value⟩ := getAnswer_value ends unheld holds answered
  have rounds := @passedRounds_congr store after.media state.media
    (valueSectors store.capabilities pair.valueLen * store.sectorSize) readExact before
    (sectorsBuffers store pair.valueLen) within
    fun passed member => windows passed (inEarlier passed member)
  simp only [NvmKvIovec.withBytes_valueLen] at value
  rw [value, rounds]
  exact congrFun (gotValue_congr (withinWindow_passedRounds within) (windows first firstEarlier)
    _ _) 0

/-- When all contents are delivered, no window on the way of an exact reading has cut
it short: the last byte of the value would not have been read. -/
theorem reach_of_delivers {earlier later : List Nat} (some : pair.key ≠ [])
    (short : pair.key.length ≤ nvmKvMaxKeySize) (positive : 0 < pair.valueLen)
    (bounded : pair.valueLen ≤ nvmKvMaxValueSize) (gettable : Gettable store pair.valueLen)
    (aligned : pair.value.address % store.sectorSize = 0)
    (split : store.probes poolId pair.key = earlier ++ lba :: later)
    (other : ∀ passed, passed ∈ earlier → passed ≠ lba)
    (unheld : ∀ passed, passed ∈ earlier → holds store state.media poolId pair.key passed = false)
    (done : ∀ bytes, ∃ buf after, WrittenDelivers store thread state poolId
      (pair.withBytes bytes) true lba buf after) :
    fitsSector store.capabilities pair.key.length pair.valueLen ∨
      RunsReach store state.media pair.valueLen earlier := by
  by_contra fails
  rw [not_or] at fails
  obtain ⟨long, cut⟩ := fails
  have sectorPositive := store.sector_positive
  have covers : pair.valueLen ≤ valueSectors store.capabilities pair.valueLen * store.sectorSize ∧
      valueSectors store.capabilities pair.valueLen * store.sectorSize <
        pair.valueLen + store.sectorSize := valueSectors_covers store.capabilities pair.valueLen
  have sectors : 0 < valueSectors store.capabilities pair.valueLen := by
    apply Nat.pos_of_ne_zero
    intro none
    rw [none] at covers
    omega
  have limit : (nvmKvMaxValueSize : Nat) = 1047552 := rfl
  have asked : nvmKvRoundUptoBlk
      (valueSectors store.capabilities pair.valueLen * store.sectorSize) store.sectorSize =
      valueSectors store.capabilities pair.valueLen * store.sectorSize :=
    round_sectors store.capabilities _ (Nat.lt_of_le_of_lt gettable.2 (by omega))
  have stopped : ∃ passed, passed ∈ earlier ∧ windowFree store state.media passed = false ∧
      (state.media.rangeExists ⟨passed, store.maxSearchRange⟩).length ≤
        valueSectors store.capabilities pair.valueLen := by
    unfold RunsReach at cut
    push Not at cut
    exact cut
  have lacks := @cutShort_passedRounds store _ _ _ _
    (sectorsBuffers store pair.valueLen) asked (by omega) sectors (.inr stopped)
  have within := @withinWindow_getBuffers store
    (valueSectors store.capabilities pair.valueLen * store.sectorSize) (poolBuffer fun _ => 0)
    (fun _ => 0) gettable.2
  refine @not_all_delivered pair.valueLen (pair.valueLen - 1)
    ((passedRounds store state.media
      (valueSectors store.capabilities pair.valueLen * store.sectorSize) true earlier
      (sectorsBuffers store pair.valueLen)).value.bytes (pair.valueLen - 1)) (by omega) ?_
  intro bytes
  obtain ⟨buf, after, wrote⟩ := done bytes
  obtain ⟨got, answered, same⟩ := wrote.answered positive gettable
  refine ⟨got.value, same, ?_⟩
  have windows := @earlier_windows store poolId (pair.withBytes bytes) lba buf state.clock
    state.media after.media earlier later some bounded split other wrote.written
  have complete := completePair_of_written wrote.written
  have missed : ∀ passed, passed ∈ earlier →
      holds store after.media poolId pair.key passed = false := by
    intro passed member
    rw [holds_congr short (windows passed member passed le_rfl
      (Nat.lt_add_of_pos_right (Nat.two_pow_pos _)))]
    exact unheld passed member
  have held : holds store after.media poolId pair.key lba = true := complete.held short
  obtain ⟨_, value⟩ := getAnswer_value split missed held answered
  have rounds := @passedRounds_congr store after.media state.media
    (valueSectors store.capabilities pair.valueLen * store.sectorSize) true earlier
    (sectorsBuffers store pair.valueLen) within windows
  have offset : (storedHeader store after.media lba).valueOffset = store.sectorSize := by
    rw [storedHeader_sector complete.first]
    have layout :=
      @writeLayout_aligned store.capabilities _ _ ⟨pair.value.address, bytes⟩ long aligned
    have header := (@readHeader_firstSector store poolId (pair.withBytes bytes) buf state.clock
      short bounded).2.1
    exact header.trans (congrArg WriteLayout.valueOffset layout)
  simp only [NvmKvIovec.withBytes_valueLen] at value
  rw [value, rounds, gotValue]
  simp only [offset, lt_irrefl, if_false]
  exact readRound_cutShort asked lacks (by omega)

/-- When all contents are delivered, the pair has not expired at once. -/
theorem unexpired_of_delivers {readExact : Bool} {earlier later : List Nat}
    (short : pair.key.length ≤ nvmKvMaxKeySize) (positive : 0 < pair.valueLen)
    (bounded : pair.valueLen ≤ nvmKvMaxValueSize) (gettable : Gettable store pair.valueLen)
    (some : pair.key ≠ []) (split : store.probes poolId pair.key = earlier ++ lba :: later)
    (other : ∀ passed, passed ∈ earlier → passed ≠ lba)
    (unheld : ∀ passed, passed ∈ earlier → holds store state.media poolId pair.key passed = false)
    {buf : Region} {after : StoreState ι}
    (done : WrittenDelivers store thread state poolId pair readExact lba buf after) :
    expiresAtOnce store pair state.clock = false := by
  have complete := completePair_of_written done.written
  have windows := earlier_windows some bounded split other done.written
  have missed : ∀ passed, passed ∈ earlier →
      holds store after.media poolId pair.key passed = false := by
    intro passed member
    rw [holds_congr short (windows passed member passed le_rfl
      (Nat.lt_add_of_pos_right (Nat.two_pow_pos _)))]
    exact unheld passed member
  obtain ⟨got, answered, _⟩ := done.answered positive gettable
  obtain ⟨unexpired, _⟩ := getAnswer_value split missed (complete.held short) answered
  rw [done.sameClock, pairExpired_complete complete short bounded] at unexpired
  exact unexpired

/-- The round trip of a replacement from an aligned buffer works for all contents of
the new value exactly when it fits. -/
theorem replace_round_trip_iff (store : NvmKvStore) (thread : ι) (state : StoreState ι)
    (free : ∀ lba, state.safeLbaList lba = none) (sound : CacheSound store state.cache)
    (poolId : UInt32) (pair : NvmKvIovec) (allocation : Allocation) (readExact : Bool)
    (replaces : pair.replace = true) (aligned : pair.value.address % store.sectorSize = 0)
    (succeeds : ∃ length after, (kvPut store poolId pair allocation).run (answer store thread)
      state = some (.ok length, after)) :
    (∀ bytes, RoundTrips store thread state poolId (pair.withBytes bytes) allocation readExact) ↔
      ReplaceFits store state poolId pair readExact := by
  obtain ⟨length, reached, ran⟩ := succeeds
  obtain ⟨memory, trims, lba, trimLen, ready⟩ := PutReady.of_run free ran
  obtain ⟨⟨keyPositive, short⟩, positive, bounded⟩ := ready.lengths
  have some : pair.key ≠ [] := List.length_pos_iff.mp keyPositive
  obtain ⟨later, split, other⟩ := addressesBefore_split (ready.address replaces)
    (putTarget_probed sound some ready.target)
  constructor
  · intro trips
    have handed : trims = [] ∧ CountsVectors store.capabilities
        (bufferLength store.capabilities pair.key.length pair.valueLen) := by
      obtain ⟨buf, written⟩ := (ready.withBytes pair.value.bytes).run thread free
      exact (PutReady.handsOverAll_iff (ready.withBytes pair.value.bytes) aligned buf).mp
        (trips pair.value.bytes _ _ written).1
    obtain ⟨none, counted⟩ := handed
    subst none
    have done : ∀ bytes, ∃ buf after, WrittenDelivers store thread state poolId
        (pair.withBytes bytes) readExact lba buf after := by
      intro bytes
      obtain ⟨buf, written⟩ := (ready.withBytes bytes).run thread free
      exact ⟨buf, _, (ready.withBytes bytes).media_after (.inr aligned) counted buf, rfl,
        ready.accepts,
        (trips bytes _ _ written).2⟩
    refine ⟨(ready.trims_nil_iff sound replaces).mp rfl, counted, ?_⟩
    intro gettable
    have unheld := unheld_of_delivers some short positive bounded gettable split other done
    obtain ⟨buf, after, wrote⟩ := done pair.value.bytes
    refine ⟨?_, unheld, ?_⟩
    · exact unexpired_of_delivers short positive bounded gettable some split other unheld wrote
    · intro exact
      subst exact
      exact reach_of_delivers some short positive bounded gettable aligned split other unheld done
  · intro fits bytes
    have none := (ready.trims_nil_iff sound replaces).mpr fits.notFewer
    subst none
    have trip := ready.withBytes bytes
    obtain ⟨buf, written⟩ := trip.run thread free
    intro length after ran
    rw [written, Option.some.injEq, Prod.mk.injEq] at ran
    obtain ⟨_, rfl⟩ := ran
    refine ⟨(trip.handsOverAll_iff aligned buf).mpr ⟨rfl, fits.counted⟩, ?_⟩
    exact trip.delivers sound replaces aligned ⟨fits.notFewer, fits.counted, fits.found⟩
      (trip.media_after (.inr aligned) fits.counted buf) rfl ready.accepts

end Replacement

/-- In a store without a cache the first probe address is written to if it is free or
holds the key. -/
theorem replaceAddress_first {state : StoreState ι} {poolId : UInt32} {key : List UInt8}
    (noCache : store.cacheSize = 0)
    (first : windowFree store state.media (store.probeLba poolId key 0) = true ∨
      holds store state.media poolId key (store.probeLba poolId key 0) = true) :
    replaceAddress store state poolId key = some (store.probeLba poolId key 0) ∧
      addressesBefore store state poolId key = [] ∧
      replacedLength store state poolId key =
        placedLength store state.clock state.media (store.probeLba poolId key 0) := by
  have missed : cacheAnswer store state poolId key = (false, .zero) := if_neg (by omega)
  have probes : store.probes poolId key = store.probeLba poolId key 0 ::
      (List.range' 1 7).map (store.probeLba poolId key) := rfl
  have ends : (windowFree store state.media (store.probeLba poolId key 0) ||
      holds store state.media poolId key (store.probeLba poolId key 0)) = true := by
    rwa [Bool.or_eq_true]
  have address : replaceAddress store state poolId key = some (store.probeLba poolId key 0) := by
    simp only [replaceAddress, missed, probes, List.find?_cons, ends, Bool.false_eq_true, if_false]
  refine ⟨address, ?_, ?_⟩
  · rw [addressesBefore, address, probes, List.takeWhile_cons_of_neg]
    simp
  · simp only [replacedLength, missed, Bool.false_eq_true, if_false, address, Option.map_some,
      Option.getD_some]

/-- A put of one sector's value for the key `a`, with replacement. -/
def sectorPair : NvmKvIovec := ⟨[97], ⟨0, fun _ => 1⟩, 512, 0, 0, true⟩

/-- An allocation that has memory for all that a put asks for. -/
def plentyMemory : Allocation := ⟨⟨fun _ => 0, true⟩, some fun _ => ⟨⟨0, fun _ => 0⟩, 0, 0, .write⟩⟩

/-- The store of a terabyte, opened over some media. -/
def openedTerabyte (media : Media) : StoreState Unit := .opened media (fun _ => false) 0

/-- The address of the key `a`. -/
def sectorLba : Nat := NvmKvStore.terabyteStore.probeLba 0 [97] 0

/-- The media with a pair of the key `a` whose value has two sectors. -/
def twoSectorMedia : Media := fun l =>
  if l = sectorLba then some (writeHeader (fun _ => 0) 0 [97] 1024 512 0 0) else none

/-- A put of two sectors' value for the key `a`, with replacement. -/
def twoSectorPair : NvmKvIovec := ⟨[97], ⟨0, fun _ => 1⟩, 1024, 0, 0, true⟩

/-- A put that replaces the pair of the key `a` has everything it needs when it goes to the first
address. -/
theorem putReady_first {media : Media} {pair : NvmKvIovec} {length : Nat} {trims : List NvmIovec}
    (key : pair.key = [97]) (replaces : pair.replace = true)
    (accepted : putAccepted NvmKvStore.terabyteStore (openedTerabyte media) 0 pair = true)
    (few : (writeLayout NvmKvStore.terabyteStore.capabilities pair.key.length pair.value
      pair.valueLen).iovCount ≤ NvmKvStore.terabyteStore.capabilities.nvmMaxNumIovs)
    (address : replaceAddress NvmKvStore.terabyteStore (openedTerabyte media) 0 [97] =
      some sectorLba)
    (old : replacedLength NvmKvStore.terabyteStore (openedTerabyte media) 0 [97] = length)
    (trimmed : kvProcessForTrim NvmKvStore.terabyteStore.capabilities pair.valueLen
      (if pair.valueLen < length then length else 0) sectorLba = .ok trims) :
    ∃ memory, PutReady NvmKvStore.terabyteStore (openedTerabyte media) 0 pair plentyMemory
      memory trims sectorLba (if pair.valueLen < length then length else 0) := by
  have missed : cacheRefuses NvmKvStore.terabyteStore (openedTerabyte media) 0 pair = false := rfl
  refine ⟨_, accepted, missed, ⟨_, kvAllocForWrite_grows rfl few⟩, ?_, rfl, trimmed⟩
  subst old
  rw [putTarget_replace replaces, key, address]
  rfl

/-- The pair of two sectors begins with its header. -/
theorem twoSectorMedia_stored :
    twoSectorMedia sectorLba = some (writeHeader (fun _ => 0) 0 [97] 1024 512 0 0) :=
  if_pos rfl

/-- The pair of two sectors is at the first address of its key. -/
theorem twoSectorMedia_holds :
    holds NvmKvStore.terabyteStore twoSectorMedia 0 [97] sectorLba = true := by
  rw [holds_sector (by decide) twoSectorMedia_stored,
    headerMatches_writeHeader _ _ _ _ _ _ _ _ _ (by decide)]
  rfl

/-- The stored pair of two sectors is replaced at its address, which no address of the key is
before. -/
theorem twoSectorMedia_replaced :
    replaceAddress NvmKvStore.terabyteStore (openedTerabyte twoSectorMedia) 0 [97] =
        some sectorLba ∧
      addressesBefore NvmKvStore.terabyteStore (openedTerabyte twoSectorMedia) 0 [97] = [] ∧
      replacedLength NvmKvStore.terabyteStore (openedTerabyte twoSectorMedia) 0 [97] = 1024 := by
  have held := twoSectorMedia_holds
  have mapped : windowFree NvmKvStore.terabyteStore twoSectorMedia sectorLba = false := by
    rw [Bool.eq_false_iff]
    intro free
    rw [holds_free (by decide) free] at held
    exact Bool.noConfusion held
  obtain ⟨address, before, old⟩ := @replaceAddress_first Unit NvmKvStore.terabyteStore
    (openedTerabyte twoSectorMedia) 0 [97] rfl (.inr held)
  have length : placedLength NvmKvStore.terabyteStore 0 twoSectorMedia sectorLba = 1024 := by
    have unexpired : pairExpired NvmKvStore.terabyteStore 0
        (storedHeader NvmKvStore.terabyteStore twoSectorMedia sectorLba) = false := rfl
    rw [placedLength, mapped, unexpired, storedHeader_sector twoSectorMedia_stored,
      readHeader_writeHeader]
    decide
  exact ⟨address, before, old.trans length⟩

/-- One sector less is trimmed by one vector. -/
theorem sector_trim (lba : Nat) :
    ∃ vector, kvProcessForTrim NvmKvStore.terabyteStore.capabilities 512 1024 lba =
      .ok [vector] := by
  obtain ⟨trims, trimmed⟩ : ∃ trims, kvProcessForTrim NvmKvStore.terabyteStore.capabilities 512
      1024 lba = .ok trims := by
    unfold kvProcessForTrim
    rw [if_neg (by decide), if_pos (by decide)]
    simp only
    split <;> exact ⟨_, rfl⟩
  have vectors := kvProcessForTrim_eq (by decide) (by decide) (by decide) trimmed
    (.inr (by decide))
  rw [if_pos (by decide)] at vectors
  exact ⟨_, vectors ▸ trimmed⟩

/-- Replacing the value of two sectors by one of one sector succeeds and loses the new
value: the batch holds the trim vector and the header, but not the value. -/
theorem shorter_replacement_fails :
    ¬∀ (store : NvmKvStore) (state : StoreState Unit) (poolId : UInt32) (pair : NvmKvIovec)
      (allocation : Allocation) (readExact : Bool), (∀ lba, state.safeLbaList lba = none) →
      CacheSound store state.cache → pair.replace = true →
      pair.value.address % store.sectorSize = 0 →
      RoundTrips store () state poolId pair allocation readExact := by
  intro trips
  obtain ⟨address, _, old⟩ := twoSectorMedia_replaced
  obtain ⟨vector, trimmed⟩ := sector_trim sectorLba
  obtain ⟨memory, ready⟩ := @putReady_first twoSectorMedia sectorPair 1024 _ rfl rfl rfl (by decide)
    address old trimmed
  obtain ⟨buf, written⟩ := ready.run () fun _ => rfl
  have handed := (trips _ _ 0 sectorPair plentyMemory false (fun _ => rfl)
    (cacheSound_initial _) rfl rfl _ _ written).1
  exact absurd ((ready.handsOverAll_iff rfl buf).mp handed).1 (by simp)

/-- A first put of the same value has everything it needs. -/
theorem sectorPair_first :
    ∃ memory, PutReady NvmKvStore.terabyteStore (openedTerabyte fun _ => none) 0 sectorPair
        plentyMemory memory [] sectorLba 0 ∧
      addressesBefore NvmKvStore.terabyteStore (openedTerabyte fun _ => none) 0 [97] = [] ∧
      replacedLength NvmKvStore.terabyteStore (openedTerabyte fun _ => none) 0 [97] = 0 := by
  have free : windowFree NvmKvStore.terabyteStore (fun _ => none) sectorLba = true :=
    windowFree_iff.mpr fun _ _ => rfl
  obtain ⟨address, before, old⟩ := @replaceAddress_first Unit NvmKvStore.terabyteStore
    (openedTerabyte fun _ => none) 0 [97] rfl (.inl free)
  have length : placedLength NvmKvStore.terabyteStore 0 (fun _ => none) sectorLba = 0 := by
    rw [placedLength, free, Bool.true_or, if_pos rfl]
  have trimmed : kvProcessForTrim NvmKvStore.terabyteStore.capabilities 512 0 sectorLba =
      .ok [] := rfl
  obtain ⟨memory, ready⟩ := @putReady_first (fun _ => none) sectorPair 0 _ rfl rfl rfl (by decide)
    address (old.trans length) trimmed
  exact ⟨memory, ready, before, old.trans length⟩

/-- Replacing the value of two sectors by another one of two sectors fits. -/
theorem replace_round_trip_equal_length :
    holds NvmKvStore.terabyteStore (openedTerabyte twoSectorMedia).media 0 [97] sectorLba = true ∧
      (∃ length after, (kvPut NvmKvStore.terabyteStore 0 (twoSectorPair.withBytes fun i =>
        UInt8.ofNat i) plentyMemory).run (answer NvmKvStore.terabyteStore ())
          (openedTerabyte twoSectorMedia) = some (.ok length, after)) ∧
      RoundTrips NvmKvStore.terabyteStore () (openedTerabyte twoSectorMedia) 0
        (twoSectorPair.withBytes fun i => UInt8.ofNat i) plentyMemory false := by
  obtain ⟨address, before, old⟩ := twoSectorMedia_replaced
  have trimmed : kvProcessForTrim NvmKvStore.terabyteStore.capabilities 1024 0 sectorLba =
      .ok [] := rfl
  obtain ⟨memory, ready⟩ := @putReady_first twoSectorMedia twoSectorPair 1024 _ rfl rfl rfl
    (by decide) address old trimmed
  obtain ⟨buf, written⟩ := ready.run () fun _ => rfl
  obtain ⟨bytesBuf, bytesWritten⟩ :=
    (ready.withBytes fun i => UInt8.ofNat i).run () fun _ => rfl
  refine ⟨twoSectorMedia_holds, ⟨_, _, bytesWritten⟩,
    (replace_round_trip_iff NvmKvStore.terabyteStore ()
    (openedTerabyte twoSectorMedia) (fun _ => rfl) (cacheSound_initial _) 0 twoSectorPair
    plentyMemory false rfl rfl ⟨_, _, written⟩).mpr
      ⟨?_, by decide, fun _ => ⟨rfl, ?_, fun exact => Bool.noConfusion exact⟩⟩ _⟩
  · refine Nat.le_trans (Nat.le_of_eq (congrArg _ old)) ?_
    decide
  · intro passed member
    exact absurd (before ▸ member) List.not_mem_nil

end Nvmkv
