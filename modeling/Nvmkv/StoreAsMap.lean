import Nvmkv.KeyedMaps
import Nvmkv.PairFrames

/-!
# The store as a map

What a store is for is to be a map from keys to values: a value that is put under a key is
got until another one is put there or the key is deleted. A user sees the store through the
results of calls, each run to its end before the next one begins. The trace of a run lists
these results as events of a map. Calls that fail otherwise leave no event.

A state of the store represents a map when every key that the map has lies complete at one
of its probe addresses, with the header that says its length and generation count, and when
no probe address holds a key that the map has not. Pools come and go between calls; a key of
a pool that is not in use cannot be asked for, so nothing is seen of it.

Three defects of the store are visible in such traces. A put may end its search at a hole in
front of its key and store it a second time; a put that replaces a value of more sectors
loses vectors to the trim of the old one; and sectors of another pool may lie in a window
that a delete trims, or under a longer value, or be read as a header where a value was
written. Calls that run into none of these are those of a map.
-/

namespace Nvmkv

variable {ι : Type}

/-- What is stored under a key: the bytes of the value, and the generation count as the header
has room for it. -/
structure StoredContent where
  bytes : List UInt8
  genCount : Nat
  deriving DecidableEq

/-- What a reading shows of it: as many bytes as there is room for, the whole length, and the
generation count. -/
structure ShownContent where
  bytes : List UInt8
  valueLen : Nat
  genCount : Nat
  deriving DecidableEq

/-- What a buffer of a given length shows of a content. -/
def StoredContent.shown (limit : Nat) (content : StoredContent) : ShownContent where
  bytes := content.bytes.take limit
  valueLen := content.bytes.length
  genCount := content.genCount

/-- The content that a put asks to be stored. -/
def NvmKvIovec.content (pair : NvmKvIovec) : StoredContent where
  bytes := pair.value.bytes.slice 0 pair.valueLen
  genCount := pair.genCount % 2 ^ 32

/-- A pool and a key of it. -/
abbrev PairKey := UInt32 × List UInt8

/-- The events of the map of a store. -/
abbrev PairEvent := MapEvent PairKey StoredContent Nat ShownContent

/-- What a put shows. A key that may not be replaced is refused. -/
def putEvent (poolId : UInt32) (pair : NvmKvIovec) : Except NvmErrorCode Nat → Option PairEvent
  | .ok _ => some (.stored (poolId, pair.key) pair.content)
  | .error .objectExists => some (.refused (poolId, pair.key))
  | .error _ => none

/-- What a delete shows. -/
def deleteEvent (poolId : UInt32) (key : List UInt8) : Except NvmErrorCode Unit → Option PairEvent
  | .ok () => some (.removed (poolId, key))
  | .error _ => none

/-- What a reading into a buffer of a length shows. -/
def getEvent (poolId : UInt32) (key : List UInt8) (valueLen : Nat) :
    Except NvmErrorCode GetResult → Option PairEvent
  | .ok got => some (.asked (poolId, key) valueLen
      (some ⟨got.value.slice 0 got.length, got.keyInfo.valueLen, got.keyInfo.genCount⟩))
  | .error .objectNotFound => some (.asked (poolId, key) valueLen none)
  | .error _ => none

/-- What a question for the information on a key shows. -/
def infoEvent (poolId : UInt32) (key : List UInt8) :
    Except NvmErrorCode (Option NvmKvKeyInfo) → Option PairEvent
  | .ok (some info) => some (.asked (poolId, key) 0 (some ⟨[], info.valueLen, info.genCount⟩))
  | .ok none => some (.asked (poolId, key) 0 none)
  | .error .objectNotFound => some (.asked (poolId, key) 0 none)
  | .error _ => none

/-- A call that a user makes, or what happens between two calls. -/
inductive UserCall where
  | kvPut (poolId : UInt32) (pair : NvmKvIovec) (allocation : Allocation)
  | kvDelete (poolId : UInt32) (key : List UInt8) (buf : Option Region) (allocated : Bool)
  | kvGet (poolId : UInt32) (key : List UInt8) (value : Memory) (valueLen : Nat)
      (readExact : Bool) (buf : Option Region)
  | kvGetKeyInfo (poolId : UInt32) (key : List UInt8) (buf : Option Region)
  | kvExists (poolId : UInt32) (key : List UInt8) (buf : Option Region)
  | between (clock : Nat) (inUse deleted : Nat → Bool)

/-- What is seen of a call that is run to its end, and the state in which it ends. -/
def UserCall.run (store : NvmKvStore) (thread : ι) (state : StoreState ι) :
    UserCall → Option (Option PairEvent × StoreState ι)
  | .kvPut poolId pair allocation =>
      ((Nvmkv.kvPut store poolId pair allocation).run (answer store thread) state).map
        (Prod.map (putEvent poolId pair) id)
  | .kvDelete poolId key buf allocated =>
      ((Nvmkv.kvDelete store poolId key buf allocated).run (answer store thread) state).map
        (Prod.map (deleteEvent poolId key) id)
  | .kvGet poolId key value valueLen readExact buf =>
      ((Nvmkv.kvGet store poolId key value valueLen readExact buf).run (answer store thread)
        state).map (Prod.map (getEvent poolId key valueLen) id)
  | .kvGetKeyInfo poolId key buf =>
      ((Nvmkv.kvGetKeyInfo store poolId key buf).run (answer store thread) state).map
        (Prod.map (infoEvent poolId key ∘ Except.map some) id)
  | .kvExists poolId key buf =>
      ((Nvmkv.kvExists store poolId key buf).run (answer store thread) state).map
        (Prod.map (infoEvent poolId key) id)
  | .between clock inUse deleted =>
      some (none, { state with clock := clock, inUse := inUse, deleted := deleted })

/-- A call that meets a condition is run. -/
def UserStep (store : NvmKvStore) (thread : ι) (condition : UserCall → StoreState ι → Prop)
    (before : StoreState ι) (event : Option PairEvent) (after : StoreState ι) : Prop :=
  ∃ call, condition call before ∧ call.run store thread before = some (event, after)

/-- A content lies complete at a probe address of its key. -/
structure KeptAt (store : NvmKvStore) (media : Media) (poolId : UInt32) (key : List UInt8)
    (lba : Nat) (content : StoredContent) : Prop where
  probed : lba ∈ store.probes poolId key
  stored : StoredValue store media poolId key lba content.bytes.length (.ofList content.bytes)
  genCount : (storedHeader store media lba).genCount = content.genCount
  positive : 0 < content.bytes.length
  bounded : content.bytes.length ≤ nvmKvMaxValueSize

/-- The probe addresses of a key have what a map has for it. -/
def Keeps (store : NvmKvStore) (media : Media) (poolId : UInt32) (key : List UInt8) :
    Option StoredContent → Prop
  | none => Unheld store media poolId key
  | some content => HeldOnce store media poolId key ∧
      ∃ lba, KeptAt store media poolId key lba content

/-- A state represents a map, as far as the keys of some pools go. -/
structure Represents (store : NvmKvStore) (pools : UInt32 → Prop) (state : StoreState ι)
    (map : PairKey → Option StoredContent) : Prop where
  idle : Idle state
  keeps : ∀ poolId key, pools poolId → kvValidateKey key = true →
    Keeps store state.media poolId key (map (poolId, key))

/-- A run of sectors has no sector of the pair of another key. -/
def SparesPairs (store : NvmKvStore) (pools : UInt32 → Prop) (media : Media) (poolId : UInt32)
    (key : List UInt8) (lba sectors : Nat) : Prop :=
  ∀ other rival held l, pools other → kvValidateKey rival = true →
    ¬(other = poolId ∧ rival = key) → held ∈ store.probes other rival →
    holds store media other rival held = true → PairSector store media held l →
      ¬(lba ≤ l ∧ l < lba + sectors)

/-- A put finds no hole, replaces no value of more sectors, writes over no other pair and
forges no key. Its value shares the sector of its header or is read from an aligned buffer. -/
structure PutsClear (store : NvmKvStore) (pools : UInt32 → Prop) (state : StoreState ι)
    (poolId : UInt32) (pair : NvmKvIovec) : Prop where
  layout : fitsSector store.capabilities pair.key.length pair.valueLen ∨
    pair.value.address % store.sectorSize = 0
  noHole : NoHole store state.media poolId pair.key
  noShrink : ∀ lba, searchEnd store state.media poolId pair.key = some lba →
    windowFree store state.media lba = false →
      valueSectors store.capabilities (storedHeader store state.media lba).valueLen ≤
        valueSectors store.capabilities pair.valueLen
  spares : ∀ lba, searchEnd store state.media poolId pair.key = some lba →
    SparesPairs store pools state.media poolId pair.key lba
      (sectorsWritten store.capabilities (pair.layout store) pair.valueLen)
  unforged : ∀ other key l, pools other → kvValidateKey key = true →
    ¬(other = poolId ∧ key = pair.key) → ¬ForgesAt store state.media poolId pair other key l

/-- A call in one of the pools that runs into none of the defects. -/
def Undisturbed (store : NvmKvStore) (pools : UInt32 → Prop) : UserCall → StoreState ι → Prop
  | .kvPut poolId pair _, state => pools poolId ∧
      (putAccepted store state poolId pair = true → PutsClear store pools state poolId pair)
  | .kvDelete poolId key _ _, state => pools poolId ∧ (keyAccepted state poolId key = true →
      ∀ lba, lookupLba store state.media poolId key = some lba →
        SparesPairs store pools state.media poolId key lba (2 ^ store.valueBits))
  | .kvGet poolId _ value _ readExact _, _ => pools poolId ∧ readExact = false ∧
      value.address % store.sectorSize = 0
  | .kvGetKeyInfo poolId _ _, _ => pools poolId
  | .kvExists poolId _ _, _ => pools poolId
  | .between _ _ _, _ => True

section Contents

variable {store : NvmKvStore} {media other : Media} {poolId : UInt32} {key : List UInt8}
  {lba n : Nat} {content : StoredContent}

/-- The first bytes of a list, read as a region. -/
theorem Region.slice_ofList {bytes : List UInt8} (few : n ≤ bytes.length) :
    (Region.ofList bytes).slice 0 n = bytes.take n := by
  apply List.ext_getElem
  · simp [few]
  · intro i left right
    have inside : i < bytes.length := by
      simp only [List.length_take] at right
      omega
    simp [Region.slice, Region.ofList, inside]

/-- A sector that has a byte of the value is one of the pair. -/
theorem valueSectors_lt {capabilities : NvmKvStoreCapabilities} {offset length i : Nat}
    (inside : i < length) :
    (offset + i) / capabilities.nvmSectorSize < valueSectors capabilities (offset + length) := by
  have covers := (valueSectors_covers capabilities (offset + length)).1
  rw [Nat.div_lt_iff_lt_mul capabilities.sector_positive]
  omega

/-- The first sector is one of the pair. -/
theorem KeptAt.first (kept : KeptAt store media poolId key lba content) :
    PairSector store media lba lba := by
  have some := @valueSectors_lt store.capabilities (storedHeader store media lba).valueOffset
    content.bytes.length 0 kept.positive
  refine ⟨le_rfl, ?_⟩
  rw [kept.stored.length]
  exact Nat.lt_add_of_pos_right (Nat.zero_lt_of_lt some)

/-- So are those of the value. -/
theorem KeptAt.value (kept : KeptAt store media poolId key lba content) {i : Nat}
    (inside : i < content.bytes.length) :
    PairSector store media lba
      (lba + ((storedHeader store media lba).valueOffset + i) / store.sectorSize) := by
  have sector := @valueSectors_lt store.capabilities (storedHeader store media lba).valueOffset
    content.bytes.length i inside
  refine ⟨Nat.le_add_right _ _, ?_⟩
  rw [kept.stored.length]
  exact Nat.add_lt_add_left sector lba

/-- A value with sectors of its own has one more with the header. -/
theorem valueSectors_behind (store : NvmKvStore) (length : Nat) :
    valueSectors store.capabilities (store.sectorSize + length) =
      1 + valueSectors store.capabilities length := by
  change (store.capabilities.nvmSectorSize + length + (store.capabilities.nvmSectorSize - 1)) /
    store.capabilities.nvmSectorSize = 1 + valueSectors store.capabilities length
  rw [Nat.add_assoc, Nat.add_div_left _ store.capabilities.sector_positive, Nat.add_comm]
  rfl

/-- A content stays where its sectors are as they were. -/
theorem KeptAt.congr (kept : KeptAt store media poolId key lba content)
    (short : key.length ≤ nvmKvMaxKeySize)
    (same : ∀ l, PairSector store media lba l → other l = media l) :
    KeptAt store other poolId key lba content := by
  have first := same lba kept.first
  have header := @storedHeader_congr store other media lba first
  obtain ⟨probed, ⟨held, length, placed, value⟩, genCount, positive, bounded⟩ := kept
  refine ⟨probed, ⟨?_, ?_, ?_, ?_⟩, ?_, positive, bounded⟩
  · rw [holds_congr short first]
    exact held
  · rw [header]
    exact length
  · rw [header]
    apply placed.imp_right
    rintro ⟨behind, mapped⟩
    refine ⟨behind, ?_⟩
    intro i inside
    rw [same (lba + i) ⟨Nat.le_add_right _ _, ?_⟩]
    · exact mapped i inside
    · rw [behind, length, valueSectors_behind]
      omega
  · intro i inside
    rw [header, ← value i inside]
    exact Media.read_congr (same _ (KeptAt.value ⟨probed, ⟨held, length, placed, value⟩, genCount,
      positive, bounded⟩ inside))
  · rw [header]
    exact genCount

/-- A pair ends with its window. -/
theorem KeptAt.window (kept : KeptAt store media poolId key lba content) {l : Nat}
    (sector : PairSector store media lba l) : lba ≤ l ∧ l < lba + 2 ^ store.valueBits := by
  refine ⟨sector.1, sector.2.trans_le (Nat.add_le_add_left ?_ lba)⟩
  have whole := @sectorsWritten_le store ⟨true, 0, 0, 0⟩ _ kept.bounded
  rw [sectorsWritten, if_pos rfl] at whole
  rw [kept.stored.length]
  rcases kept.stored.placed with ⟨_, room⟩ | ⟨behind, _⟩
  · have one : valueSectors store.capabilities ((storedHeader store media lba).valueOffset +
        content.bytes.length) ≤ 1 := by
      have positive := store.capabilities.sector_positive
      have room : (storedHeader store media lba).valueOffset + content.bytes.length ≤
        store.capabilities.nvmSectorSize := room
      apply Nat.le_of_lt_succ
      rw [valueSectors, Nat.div_lt_iff_lt_mul positive]
      omega
    omega
  · rw [behind, valueSectors_behind]
    exact whole

/-- The one address that holds a key is where a lookup finds it. -/
theorem KeptAt.lookup (kept : KeptAt store media poolId key lba content)
    (once : HeldOnce store media poolId key) : lookupLba store media poolId key = some lba := by
  have some : (lookupLba store media poolId key).isSome = true :=
    List.find?_isSome.mpr ⟨lba, kept.probed, kept.stored.held⟩
  obtain ⟨found, lookup⟩ := Option.isSome_iff_exists.mp some
  rw [lookup, once found (List.mem_of_find?_eq_some lookup) lba kept.probed
    (List.find?_some lookup) kept.stored.held]

/-- The bytes of a stored value that a reading delivers, as far as the buffer goes. -/
theorem StoredValue.got_part {valueLen : Nat} {bytes : Region} {before : ReadBuffers}
    (stored : StoredValue store media poolId key lba valueLen bytes) (few : n ≤ valueLen)
    (reads : (storedHeader store media lba).valueOffset < store.sectorSize ∨
      ReadsValue before n) :
    (gotValue store media (readSlot store media lba before) lba).slice 0 n = bytes.slice 0 n := by
  apply Region.slice_congr
  intro i _ inside
  rw [Nat.zero_add] at inside
  rw [← stored.value i (by omega)]
  rcases stored.placed with ⟨near, room⟩ | ⟨behind, _⟩
  · simp only [gotValue, stored.length, if_pos near, readSlot]
    rw [Region.copy_inside _ _ ⟨Nat.zero_le i, by omega⟩, Nat.sub_zero, Region.drop,
      slotBuffer_inside store media before.buf lba (by omega)]
  · have far : ¬(storedHeader store media lba).valueOffset < store.sectorSize := by omega
    obtain ⟨double, enough⟩ := reads.resolve_left far
    simp only [gotValue, behind, lt_irrefl, if_false, readSlot, readValue, double, if_true]
    rw [Region.copy_inside _ _ ⟨Nat.zero_le i, by omega⟩, Nat.sub_zero, Region.drop]

/-- What a reading that is not exact returns for a kept content. It is as long as the buffer or the
value. -/
theorem KeptAt.getResult (kept : KeptAt store media poolId key lba content)
    (once : HeldOnce store media poolId key) (valid : kvValidateKey key = true) {valueLen : Nat}
    (accepted : kvValidateValue store true valueLen = true) (value : Memory) (buf : Region) :
    let got := Nvmkv.getResult store media poolId key valueLen false
      (getBuffers store value valueLen buf) lba
    ShownContent.mk (got.value.slice 0 got.length) got.keyInfo.valueLen got.keyInfo.genCount =
      content.shown valueLen := by
  obtain ⟨positive, bounded, _⟩ := of_decide_eq_true accepted
  obtain ⟨nonempty, _⟩ := of_decide_eq_true valid
  have limit : (nvmKvMaxValueSize : Nat) = 1047552 := rfl
  have rounded := (store.round_upto_sector_bounds valueLen (by omega)).1
  obtain ⟨shown, few, reads, length⟩ : ∃ shown, shown ≤ content.bytes.length ∧
      shown ≤ valueLen ∧ shown = if valueLen < content.bytes.length then valueLen
        else content.bytes.length := by
    refine ⟨_, ?_, ?_, rfl⟩ <;> split <;> omega
  have bytes : (gotValue store media (readRounds store media poolId key valueLen false
      (store.probes poolId key) (getBuffers store value valueLen buf)) lba).slice 0 shown =
        content.bytes.take shown := by
    obtain ⟨_, earlier, later, split, missed⟩ :=
      List.find?_eq_some_iff_append.mp (kept.lookup once)
    have full : ReadsValue (getBuffers store value valueLen buf) shown :=
      ⟨rfl, reads.trans rounded⟩
    rw [← Region.slice_ofList few]
    rcases Nat.eq_zero_or_pos shown with none | some
    · rw [none]
      rfl
    · obtain ⟨before, rounds, limited⟩ := @readRounds_reads store media poolId key valueLen shown
        lba false earlier later _ nonempty some (by simpa using missed) kept.stored.held full
        (fun exact => by cases exact)
      rw [split, rounds]
      exact kept.stored.got_part few (.inr limited)
  simp only [Nvmkv.getResult, kept.stored.length, ← length, bytes, keyInfoOf, kept.genCount,
    StoredContent.shown, ShownContent.mk.injEq, and_true]
  rw [length]
  split
  · rfl
  · rw [List.take_length, List.take_of_length_le (by omega)]

end Contents

section Lookups

variable {store : NvmKvStore} {thread : ι} {pools : UInt32 → Prop} {state after : StoreState ι}
  {map : PairKey → Option StoredContent} {poolId : UInt32} {key : List UInt8}
  {event : Option PairEvent}

/-- The machine answers what the map says. -/
theorem makes_asked {limit : Nat} {shown : Option ShownContent}
    (answers : shown = (map (poolId, key)).map (StoredContent.shown limit)) :
    Makes (MapStep StoredContent.shown) map
      (some (MapEvent.asked (poolId, key) limit shown)).toList map := by
  subst answers
  exact Makes.single (MapStep.asked (poolId, key) limit)

/-- Where the pairs do not expire, a lookup finds what the map has. -/
theorem Keeps.lookup (disabled : store.expiryMode = .disableExpiry) {content : Option StoredContent}
    (keeps : Keeps store state.media poolId key content) :
    afterLookup store state poolId key = state ∧
      (content = none ∧ lookupLba store state.media poolId key = none ∨
        ∃ kept lba, content = some kept ∧ HeldOnce store state.media poolId key ∧
          KeptAt store state.media poolId key lba kept ∧
          lookupLba store state.media poolId key = some lba) := by
  have unexpired : ∀ hdr, pairExpired store state.clock hdr = false := by
    intro hdr
    simp [pairExpired, disabled]
  cases content with
  | none =>
    have missing : lookupLba store state.media poolId key = none := by
      apply List.find?_eq_none.mpr
      intro lba probed
      simp [keeps lba probed]
    refine ⟨?_, Or.inl ⟨rfl, missing⟩⟩
    simp [afterLookup, missing]
  | some kept =>
    obtain ⟨once, lba, here⟩ := keeps
    have found := here.lookup once
    refine ⟨?_, Or.inr ⟨kept, lba, rfl, once, here, found⟩⟩
    simp [afterLookup, found, unexpired]

/-- The information that is reported is that of the map. -/
theorem Keeps.liveHeader (disabled : store.expiryMode = .disableExpiry)
    {content : Option StoredContent} (keeps : Keeps store state.media poolId key content) :
    (Nvmkv.liveHeader store state poolId key).map (fun hdr =>
      ShownContent.mk [] hdr.valueLen hdr.genCount) = content.map (StoredContent.shown 0) := by
  have unexpired : ∀ hdr, pairExpired store state.clock hdr = false := by
    intro hdr
    simp [pairExpired, disabled]
  obtain ⟨_, ⟨rfl, missing⟩ | ⟨kept, lba, rfl, _, here, found⟩⟩ := keeps.lookup disabled
  · simp [Nvmkv.liveHeader, missing]
  · simp [Nvmkv.liveHeader, found, unexpired, StoredContent.shown, here.stored.length,
      here.genCount]

/-- A call on a key that is not accepted is refused. -/
theorem run_kvGet_rejected {value : Memory} {valueLen : Nat} {readExact : Bool}
    {buf : Option Region} (rejected : keyAccepted state poolId key = false ∨
      kvValidateValue store true valueLen = false) :
    (kvGet store poolId key value valueLen readExact buf).run (answer store thread) state =
      some (.error .invalidInput, state) := by
  simp only [keyAccepted, Bool.and_eq_false_iff] at rejected
  simp only [kvGet, Program.run_bind, run_kvValidatePoolId, Option.bind_some]
  rw [if_pos (by simpa using rejected)]
  rfl

/-- A key or a pool that is not accepted is refused. -/
theorem run_kvGetKeyInfo_rejected {buf : Option Region}
    (rejected : keyAccepted state poolId key = false) :
    (kvGetKeyInfo store poolId key buf).run (answer store thread) state =
      some (.error .invalidInput, state) := by
  simp only [keyAccepted, Bool.and_eq_false_iff] at rejected
  simp only [kvGetKeyInfo, Program.run_bind, run_kvValidatePoolId, Option.bind_some]
  rw [if_pos (by simpa using rejected)]
  rfl

/-- Here, too. -/
theorem run_kvExists_rejected {buf : Option Region}
    (rejected : keyAccepted state poolId key = false) :
    (kvExists store poolId key buf).run (answer store thread) state =
      some (.error .invalidInput, state) := by
  simp only [keyAccepted, Bool.and_eq_false_iff] at rejected
  simp only [kvExists, Program.run_bind, run_kvValidatePoolId, Option.bind_some]
  rw [if_pos (by simpa using rejected)]
  rfl

/-- So is one without memory. -/
theorem run_kvGet_unallocated {value : Memory} {valueLen : Nat} {readExact : Bool}
    (accepted : keyAccepted state poolId key = true)
    (valid : kvValidateValue store true valueLen = true) :
    (kvGet store poolId key value valueLen readExact none).run (answer store thread) state =
      some (.error .outOfMemory, state) := by
  simp only [keyAccepted, Bool.and_eq_true] at accepted
  simp only [kvGet, Program.run_bind, run_kvValidatePoolId, Option.bind_some, accepted, valid,
    Bool.not_true, Bool.or_self, Bool.false_eq_true, if_false]
  rfl

/-- Without a buffer there is no information. -/
theorem run_kvGetKeyInfo_unallocated (accepted : keyAccepted state poolId key = true) :
    (kvGetKeyInfo store poolId key none).run (answer store thread) state =
      some (.error .outOfMemory, state) := by
  simp only [keyAccepted, Bool.and_eq_true] at accepted
  simp only [kvGetKeyInfo, Program.run_bind, run_kvValidatePoolId, Option.bind_some, accepted,
    Bool.not_true, Bool.or_self, Bool.false_eq_true, if_false]
  rfl

/-- Nor is there an existence check. -/
theorem run_kvExists_unallocated (accepted : keyAccepted state poolId key = true) :
    (kvExists store poolId key none).run (answer store thread) state =
      some (.error .outOfMemory, state) := by
  simp only [keyAccepted, Bool.and_eq_true] at accepted
  simp only [kvExists, Program.run_bind, run_kvValidatePoolId, Option.bind_some, accepted,
    Bool.not_true, Bool.or_self, Bool.false_eq_true, if_false]
  rfl

/-- The key of an accepted call is valid. -/
theorem valid_of_accepted (accepted : keyAccepted state poolId key = true) :
    kvValidateKey key = true := by
  rw [keyAccepted, Bool.and_eq_true] at accepted
  exact accepted.2

/-- A reading shows what the map has, or fails for another reason. -/
theorem Represents.kvGet (represents : Represents store pools state map) (member : pools poolId)
    (disabled : store.expiryMode = .disableExpiry) (vectors : 2 ≤ store.capabilities.nvmMaxNumIovs)
    {value : Memory} {valueLen : Nat} {buf : Option Region}
    (aligned : value.address % store.sectorSize = 0)
    (ran : (UserCall.kvGet poolId key value valueLen false buf).run store thread state =
      some (event, after)) :
    after = state ∧ Makes (MapStep StoredContent.shown) map event.toList map := by
  simp only [UserCall.run, Option.map_eq_some_iff] at ran
  obtain ⟨⟨result, reached⟩, ended, shown⟩ := ran
  simp only [Prod.map, id, Prod.mk.injEq] at shown
  obtain ⟨rfl, rfl⟩ := shown
  by_cases rejected : keyAccepted state poolId key = false ∨
      kvValidateValue store true valueLen = false
  · rw [run_kvGet_rejected rejected] at ended
    cases ended
    exact ⟨rfl, Makes.start⟩
  · simp only [not_or, Bool.not_eq_false] at rejected
    obtain ⟨accepted, valid⟩ := rejected
    cases buf with
    | none =>
      rw [run_kvGet_unallocated accepted valid] at ended
      cases ended
      exact ⟨rfl, Makes.start⟩
    | some buf =>
      have keyValid := valid_of_accepted accepted
      have keeps := represents.keeps poolId key member keyValid
      have readable : Readable store (getBuffers store value valueLen buf) :=
        ⟨by simpa [getBuffers] using vectors, fun _ => aligned⟩
      obtain ⟨same, answers⟩ := keeps.lookup disabled
      rw [run_kvGet store thread state accepted valid readable, same, Option.some.injEq,
        Prod.mk.injEq] at ended
      obtain ⟨rfl, rfl⟩ := ended
      refine ⟨rfl, ?_⟩
      rcases answers with ⟨none, missing⟩ | ⟨kept, lba, has, once, here, found⟩
      · simp only [getAnswer, missing]
        exact makes_asked (by rw [none]; rfl)
      · have unexpired : pairExpired store state.clock (storedHeader store state.media lba) =
          false := by simp [pairExpired, disabled]
        simp only [getAnswer, found, unexpired, Bool.false_eq_true, if_false]
        exact makes_asked (by rw [has, here.getResult once keyValid valid value buf]; rfl)

/-- A question for the information on a key shows what the map has. -/
theorem Represents.kvGetKeyInfo (represents : Represents store pools state map)
    (member : pools poolId) (disabled : store.expiryMode = .disableExpiry) {buf : Option Region}
    (ran : (UserCall.kvGetKeyInfo poolId key buf).run store thread state = some (event, after)) :
    after = state ∧ Makes (MapStep StoredContent.shown) map event.toList map := by
  simp only [UserCall.run, Option.map_eq_some_iff] at ran
  obtain ⟨⟨result, reached⟩, ended, shown⟩ := ran
  simp only [Prod.map, id, Prod.mk.injEq] at shown
  obtain ⟨rfl, rfl⟩ := shown
  cases accepted : keyAccepted state poolId key with
  | false =>
    rw [run_kvGetKeyInfo_rejected accepted] at ended
    cases ended
    exact ⟨rfl, Makes.start⟩
  | true =>
    cases buf with
    | none =>
      rw [run_kvGetKeyInfo_unallocated accepted] at ended
      cases ended
      exact ⟨rfl, Makes.start⟩
    | some buf =>
      have keeps := represents.keeps poolId key member (valid_of_accepted accepted)
      have reported := keeps.liveHeader disabled
      rw [run_kvGetKeyInfo store thread state buf accepted, (keeps.lookup disabled).1,
        Option.some.injEq, Prod.mk.injEq] at ended
      obtain ⟨rfl, rfl⟩ := ended
      refine ⟨rfl, ?_⟩
      cases live : liveHeader store state poolId key with
      | none =>
        rw [live] at reported
        exact makes_asked reported
      | some hdr =>
        rw [live] at reported
        exact makes_asked reported

/-- So does a question whether a key exists. -/
theorem Represents.kvExists (represents : Represents store pools state map)
    (member : pools poolId) (disabled : store.expiryMode = .disableExpiry) {buf : Option Region}
    (ran : (UserCall.kvExists poolId key buf).run store thread state = some (event, after)) :
    after = state ∧ Makes (MapStep StoredContent.shown) map event.toList map := by
  simp only [UserCall.run, Option.map_eq_some_iff] at ran
  obtain ⟨⟨result, reached⟩, ended, shown⟩ := ran
  simp only [Prod.map, id, Prod.mk.injEq] at shown
  obtain ⟨rfl, rfl⟩ := shown
  cases accepted : keyAccepted state poolId key with
  | false =>
    rw [run_kvExists_rejected accepted] at ended
    cases ended
    exact ⟨rfl, Makes.start⟩
  | true =>
    cases buf with
    | none =>
      rw [run_kvExists_unallocated accepted] at ended
      cases ended
      exact ⟨rfl, Makes.start⟩
    | some buf =>
      have keeps := represents.keeps poolId key member (valid_of_accepted accepted)
      have reported := keeps.liveHeader disabled
      rw [run_kvExists store thread state buf accepted, (keeps.lookup disabled).1,
        Option.some.injEq, Prod.mk.injEq] at ended
      obtain ⟨rfl, rfl⟩ := ended
      refine ⟨rfl, ?_⟩
      cases live : liveHeader store state poolId key with
      | none =>
        rw [live] at reported
        exact makes_asked reported
      | some hdr =>
        rw [live] at reported
        exact makes_asked reported

end Lookups

section Puts

variable {store : NvmKvStore} {thread : ι} {pools : UInt32 → Prop} {state after : StoreState ι}
  {map : PairKey → Option StoredContent} {poolId : UInt32} {pair : NvmKvIovec}
  {allocation : Allocation} {lba trimLen : Nat} {memory : Nat → NvmIovec} {trims : List NvmIovec}
  {buf : Region}

/-- A key that a call neither writes nor touches keeps its content. -/
theorem Keeps.untouched {media other : Media} {poolId : UInt32} {key : List UInt8}
    {content : Option StoredContent} (keeps : Keeps store media poolId key content)
    (valid : kvValidateKey key = true)
    (unwritten : ∀ l ∈ store.probes poolId key, holds store other poolId key l = true →
      holds store media poolId key l = true)
    (same : ∀ held ∈ store.probes poolId key, holds store media poolId key held = true →
      ∀ l, PairSector store media held l → other l = media l) :
    Keeps store other poolId key content := by
  cases content with
  | none =>
    intro l probed
    rw [Bool.eq_false_iff]
    intro held
    have before := unwritten l probed held
    rw [keeps l probed] at before
    cases before
  | some content =>
    obtain ⟨once, lba, kept⟩ := keeps
    constructor
    · intro a probedA b probedB heldA heldB
      exact once a probedA b probedB (unwritten a probedA heldA) (unwritten b probedB heldB)
    · exact ⟨lba, kept.congr (of_decide_eq_true valid).2 (same lba kept.probed kept.stored.held)⟩

/-- Whatever a key has, one address holds it at most. -/
theorem Keeps.heldOnce {media : Media} {key : List UInt8} {content : Option StoredContent}
    (keeps : Keeps store media poolId key content) : HeldOnce store media poolId key := by
  cases content with
  | none => exact Unheld.heldOnce keeps
  | some content => exact keeps.1

/-- A key that an address holds is one that the map has. -/
theorem Keeps.held {media : Media} {key : List UInt8} {content : Option StoredContent}
    (keeps : Keeps store media poolId key content) {l : Nat} (probed : l ∈ store.probes poolId key)
    (held : holds store media poolId key l = true) : content ≠ none := by
  rintro rfl
  rw [keeps l probed] at held
  cases held

/-- A put is told that the object exists only where an address holds the key. -/
theorem held_of_objectExists (noCache : store.cacheSize = 0)
    (disabled : store.expiryMode = .disableExpiry) (idle : Idle state)
    (ran : (kvPut store poolId pair allocation).run (answer store thread) state =
      some (.error .objectExists, after)) :
    kvValidateKey pair.key = true ∧
      ∃ lba ∈ store.probes poolId pair.key, holds store state.media poolId pair.key lba = true := by
  obtain ⟨result, reached, returned, effect⟩ :=
    run_kvPut store thread state idle poolId pair allocation
  rw [ran, Option.some.injEq, Prod.mk.injEq] at returned
  obtain ⟨rfl, rfl⟩ := returned
  have missed : cacheAnswer store state poolId pair.key = (false, .zero) := if_neg (by omega)
  cases effect with
  | remembered _ refuses =>
    rw [cacheRefuses, missed] at refuses
    cases refuses
  | leaked _ _ found _ =>
    rw [missed] at found
    cases found
  | unallocated _ _ _ failed =>
    simp only [kvAllocForWrite] at failed
    split_ifs at failed
    · cases failed
    · split at failed
      · cases failed
      · cases failed
  | refused lba accepted _ placed =>
    rw [putAccepted, Bool.and_eq_true, Bool.and_eq_true] at accepted
    rw [putPlace, place_find disabled] at placed
    cases ends : Nvmkv.searchEnd store state.media poolId pair.key with
    | none =>
      rw [Nvmkv.searchEnd] at ends
      rw [ends] at placed
      cases placed
    | some first =>
      have here := List.find?_some ends
      have probed := searchEnd_probed ends
      rw [Nvmkv.searchEnd] at ends
      simp only [ends] at placed
      split_ifs at placed with free
      refine ⟨accepted.1.2, first, probed, ?_⟩
      simpa [free] using here
  | untrimmable _ lba trimLen _ _ failed =>
    simp only [kvProcessForTrim] at failed
    split_ifs at failed
    cases failed

/-- A put that replaces no value of more sectors trims nothing. The old length is that of the header
at the address, unless the window is free. -/
theorem PutWritten.trims_nil (noCache : store.cacheSize = 0)
    (disabled : store.expiryMode = .disableExpiry)
    (written : PutWritten store thread poolId pair allocation state after lba trimLen memory trims
      buf)
    (noShrink : windowFree store state.media lba = false →
      valueSectors store.capabilities (storedHeader store state.media lba).valueLen ≤
        valueSectors store.capabilities pair.valueLen) : trims = [] := by
  obtain ⟨_, positive, bounded⟩ := written.ready.lengths
  have missed : cacheAnswer store state poolId pair.key = (false, .zero) := if_neg (by omega)
  have target := written.ready.target
  simp only [putTarget, missed, Bool.false_eq_true, if_false, putPlace,
    place_find disabled] at target
  have length : trimLen = 0 ∨ windowFree store state.media lba = false ∧
      trimLen = replacedLen (storedHeader store state.media lba) pair.valueLen := by
    have ends := (written.searchEnd noCache disabled).1
    rw [Nvmkv.searchEnd] at ends
    simp only [ends] at target
    split_ifs at target with free replaces
    · cases target
      exact Or.inl rfl
    · cases target
      exact Or.inr ⟨Bool.eq_false_iff.mpr free, rfl⟩
    · cases target
  have word : (storedHeader store state.media lba).valueLen < 2 ^ 32 := Region.word_lt _ _
  have least : valueSectors store.capabilities 0 ≤ valueSectors store.capabilities pair.valueLen :=
    Nat.div_le_div_right (by omega)
  have few : valueSectors store.capabilities trimLen ≤
      valueSectors store.capabilities pair.valueLen := by
    rcases length with rfl | ⟨taken, rfl⟩
    · exact least
    · unfold replacedLen
      split
      · exact noShrink taken
      · exact least
  have longer : trimLen = 0 ∨ pair.valueLen < trimLen := by
    rcases length with zero | ⟨_, rfl⟩
    · exact Or.inl zero
    · unfold replacedLen
      split <;> omega
  have bits : trimLen < 2 ^ 32 := by
    rcases length with rfl | ⟨_, rfl⟩
    · exact Nat.two_pow_pos 32
    · unfold replacedLen
      split
      · exact word
      · exact Nat.two_pow_pos 32
  rw [kvProcessForTrim_eq positive bounded bits written.ready.trimmed longer,
    if_neg (Nat.not_lt.mpr few)]

/-- Where as many vectors are announced as are filled, none is missing from a batch. -/
theorem filled_of_limited (limited : PowerOfTwoLimit store.capabilities)
    (layout : fitsSector store.capabilities pair.key.length pair.valueLen ∨
      pair.value.address % store.sectorSize = 0) (bounded : pair.valueLen ≤ nvmKvMaxValueSize) :
    pair.Filled store := by
  obtain ⟨announced, filled⟩ := @layout_counts store.capabilities pair.key.length pair.valueLen
    pair.value layout
  have counted : vectorsAnnounced store.capabilities _ = _ :=
    @PowerOfTwoLimit.counts store.capabilities limited pair.key.length _ bounded
  change (writeLayout _ _ _ _).iovCount ≤ vectorsFilled _ (writeLayout _ _ _ _) _
  rw [announced, filled, counted]

/-- A put that is clear writes its pair and nothing else. -/
theorem PutWritten.media (noCache : store.cacheSize = 0)
    (disabled : store.expiryMode = .disableExpiry) (limited : PowerOfTwoLimit store.capabilities)
    (clear : PutsClear store pools state poolId pair)
    (written : PutWritten store thread poolId pair allocation state after lba trimLen memory trims
      buf) :
    after.media = pairWritten store.capabilities (pair.layout store)
      (putHeader store poolId pair (pair.layout store) buf state.clock) pair.value pair.valueLen lba
      state.media := by
  obtain rfl := written.trims_nil noCache disabled
    (clear.noShrink lba (written.searchEnd noCache disabled).1)
  rw [written.reached]
  exact written.ready.media_after clear.layout (limited.counts written.ready.lengths.2.2) buf

/-- The pair that was written is what its key has. -/
theorem PutWritten.keptAt (noCache : store.cacheSize = 0)
    (disabled : store.expiryMode = .disableExpiry) (limited : PowerOfTwoLimit store.capabilities)
    (clear : PutsClear store pools state poolId pair)
    (written : PutWritten store thread poolId pair allocation state after lba trimLen memory trims
      buf) : KeptAt store after.media poolId pair.key lba pair.content := by
  obtain ⟨⟨_, short⟩, positive, bounded⟩ := written.ready.lengths
  have complete := completePair_of_written (written.media noCache disabled limited clear)
  have length : pair.content.bytes.length = pair.valueLen := by
    simp [NvmKvIovec.content]
  obtain ⟨held, same, placed, value⟩ := complete.stored short positive bounded clear.layout
  refine ⟨searchEnd_probed (written.searchEnd noCache disabled).1, ⟨held, ?_, ?_, ?_⟩, ?_, ?_, ?_⟩
  · rw [length]
    exact same
  · rw [length]
    exact placed
  · rw [length]
    intro i inside
    rw [value i inside]
    simp [NvmKvIovec.content, Region.ofList, Region.slice, inside]
  · rw [storedHeader_sector complete.first]
    exact genCount_firstSector short
  · rw [length]
    exact positive
  · rw [length]
    exact bounded

/-- No value forges a key of its own pool: its sectors lie between two addresses of it. -/
theorem not_forgesAt_pool {media : Media} {key : List UInt8} {l : Nat}
    (own : kvValidateKey pair.key = true) (valid : kvValidateKey key = true)
    (bounded : pair.valueLen ≤ nvmKvMaxValueSize) :
    ¬ForgesAt store media poolId pair poolId key l := by
  rintro ⟨probed, lba, sector, ends, _, value, _⟩
  obtain ⟨behind, inside⟩ := value.near bounded
  have same := probes_apart (List.length_pos_iff.mp (of_decide_eq_true own).1)
    (List.length_pos_iff.mp (of_decide_eq_true valid).1) (searchEnd_probed ends) probed
    (Nat.le_of_lt behind) inside
  omega

/-- A put shows what it did to the map. A put that is refused leaves the state, and its key is one
that the map has. -/
theorem Represents.kvPut (represents : Represents store pools state map)
    (noCache : store.cacheSize = 0) (disabled : store.expiryMode = .disableExpiry)
    (limited : PowerOfTwoLimit store.capabilities) (member : pools poolId)
    (clears : putAccepted store state poolId pair = true →
      PutsClear store pools state poolId pair) {event : Option PairEvent}
    (ran : (UserCall.kvPut poolId pair allocation).run store thread state = some (event, after)) :
    ∃ next, Makes (MapStep StoredContent.shown) map event.toList next ∧
      Represents store pools after next := by
  simp only [UserCall.run, Option.map_eq_some_iff] at ran
  obtain ⟨⟨result, reached⟩, ended, shown⟩ := ran
  simp only [Prod.map, id, Prod.mk.injEq] at shown
  obtain ⟨rfl, rfl⟩ := shown
  rcases sequential_put noCache represents.idle ended with
    ⟨⟨code, rfl⟩, rfl⟩ | ⟨rfl, lba, trimLen, memory, trims, buf, written⟩
  · refine ⟨map, ?_, represents⟩
    cases code with
    | objectExists =>
      obtain ⟨valid, lba, probed, held⟩ :=
        held_of_objectExists noCache disabled represents.idle ended
      have keeps := represents.keeps poolId pair.key member valid
      exact Makes.single (MapStep.refused _ (keeps.held probed held))
    | _ => exact Makes.start
  · have clear := clears written.ready.accepted
    have ends := written.searchEnd noCache disabled
    obtain ⟨keyLengths, _, bounded⟩ := written.ready.lengths
    have own : kvValidateKey pair.key = true := decide_eq_true keyLengths
    have kept := written.keptAt noCache disabled limited clear
    have filled := filled_of_limited limited clear.layout bounded
    refine ⟨_, Makes.single (MapStep.stored (poolId, pair.key) pair.content), ?_, ?_⟩
    · rw [written.reached]
      exact represents.idle
    · intro other key otherMember valid
      have keeps := represents.keeps other key otherMember valid
      by_cases same : other = poolId ∧ key = pair.key
      · obtain ⟨rfl, rfl⟩ := same
        rw [Function.update_self]
        refine ⟨keeps.heldOnce.put noCache disabled valid ⟨filled, fun _ _ => clear.noHole, ?_⟩
          written, lba, kept⟩
        intro l forged
        exact absurd forged (not_forgesAt_pool own valid bounded)
      · rw [Function.update_of_ne (by simpa [Prod.ext_iff] using same)]
        apply keeps.untouched valid
        · intro l probed held
          rcases written.origin noCache disabled valid filled probed held with
            before | ⟨_, rfl, rfl⟩ | forged
          · exact before
          · exact absurd ⟨rfl, rfl⟩ same
          · exact absurd forged (clear.unforged other key l otherMember valid same)
        · intro held probed holding l sector
          rw [written.media noCache disabled limited clear]
          apply pairWritten_outside
          have spared := clear.spares lba ends.1 other key held l otherMember valid same probed
            holding sector
          omega

end Puts

section Runs

variable {store : NvmKvStore} {thread : ι} {pools : UInt32 → Prop} {state after : StoreState ι}
  {map : PairKey → Option StoredContent}

/-- A delete that succeeds was accepted. -/
theorem accepted_of_deleted {poolId : UInt32} {key : List UInt8} {buf : Option Region}
    {allocated : Bool} (noCache : store.cacheSize = 0) (idle : Idle state)
    (deleted : (Nvmkv.kvDelete store poolId key buf allocated).run (answer store thread) state =
      some (.ok (), after)) : keyAccepted state poolId key = true := by
  obtain ⟨result, reached, returned, effect⟩ :=
    run_kvDelete store thread noCache state idle poolId key buf allocated
  rw [deleted, Option.some.injEq, Prod.mk.injEq] at returned
  obtain ⟨rfl, rfl⟩ := returned
  cases effect with
  | absent accepted _ => exact accepted
  | trimmed _ _ accepted _ => exact accepted

/-- A delete shows what it did to the map. The own key is gone, and those of other pairs stay. -/
theorem Represents.kvDelete {poolId : UInt32} {key : List UInt8} {buf : Option Region}
    {allocated : Bool} (represents : Represents store pools state map)
    (noCache : store.cacheSize = 0) (member : pools poolId)
    (spares : keyAccepted state poolId key = true →
      ∀ lba, lookupLba store state.media poolId key = some lba →
        SparesPairs store pools state.media poolId key lba (2 ^ store.valueBits))
    {event : Option PairEvent}
    (ran : (UserCall.kvDelete poolId key buf allocated).run store thread state =
      some (event, after)) :
    ∃ next, Makes (MapStep StoredContent.shown) map event.toList next ∧
      Represents store pools after next := by
  simp only [UserCall.run, Option.map_eq_some_iff] at ran
  obtain ⟨⟨result, reached⟩, ended, shown⟩ := ran
  simp only [Prod.map, id, Prod.mk.injEq] at shown
  obtain ⟨rfl, rfl⟩ := shown
  cases result with
  | error code =>
    rcases sequential_delete noCache represents.idle ended with
      ⟨rfl, _⟩ | ⟨_, _, success, _⟩
    · exact ⟨map, Makes.start, represents⟩
    · cases success
  | ok done =>
    refine ⟨_, Makes.single (MapStep.removed (poolId, key)), ?_⟩
    have accepted := accepted_of_deleted noCache represents.idle ended
    have own : kvValidateKey key = true → Idle reached ∧ Unheld store reached.media poolId key := by
      intro valid
      exact unheld_of_deleted noCache represents.idle valid
        (represents.keeps poolId key member valid).heldOnce ended
    have others : ∀ other rival, pools other → kvValidateKey rival = true →
        ¬(other = poolId ∧ rival = key) →
          Keeps store reached.media other rival (map (other, rival)) := by
      intro other rival otherMember valid different
      have keeps := represents.keeps other rival otherMember valid
      rcases sequential_delete noCache represents.idle ended with
        ⟨rfl, _⟩ | ⟨lba, found, _, media, _⟩
      · exact keeps
      · rw [media]
        apply keeps.untouched valid
        · intro l _ held
          exact (held_after_trim valid held).1
        · intro held probed holding l sector
          exact Media.trim_outside (spares accepted lba found other rival held l otherMember valid
            different probed holding sector)
    constructor
    · rcases sequential_delete noCache represents.idle ended with
        ⟨rfl, _⟩ | ⟨_, _, _, _, list, _⟩
      · exact represents.idle
      · intro lba
        rw [list]
        exact represents.idle lba
    · intro other rival otherMember valid
      by_cases same : other = poolId ∧ rival = key
      · obtain ⟨rfl, rfl⟩ := same
        rw [Function.update_self]
        exact (own valid).2
      · rw [Function.update_of_ne (by simpa [Prod.ext_iff] using same)]
        exact others other rival otherMember valid same

/-- The map makes what is seen of every call that is undisturbed. -/
theorem simulates_map (store : NvmKvStore) (thread : ι) (pools : UInt32 → Prop)
    (noCache : store.cacheSize = 0) (disabled : store.expiryMode = .disableExpiry)
    (limited : PowerOfTwoLimit store.capabilities)
    (vectors : 2 ≤ store.capabilities.nvmMaxNumIovs) :
    Simulates (UserStep store thread (Undisturbed store pools)) (MapStep StoredContent.shown)
      (Represents store pools) := by
  rintro state map event after represents ⟨call, admitted, ran⟩
  cases call with
  | kvPut poolId pair allocation =>
    obtain ⟨member, clears⟩ := admitted
    exact represents.kvPut noCache disabled limited member clears ran
  | kvDelete poolId key buf allocated =>
    obtain ⟨member, spares⟩ := admitted
    exact represents.kvDelete noCache member spares ran
  | kvGet poolId key value valueLen readExact buf =>
    obtain ⟨member, rfl, aligned⟩ := admitted
    obtain ⟨rfl, makes⟩ := represents.kvGet member disabled vectors aligned ran
    exact ⟨map, makes, represents⟩
  | kvGetKeyInfo poolId key buf =>
    obtain ⟨rfl, makes⟩ := represents.kvGetKeyInfo admitted disabled ran
    exact ⟨map, makes, represents⟩
  | kvExists poolId key buf =>
    obtain ⟨rfl, makes⟩ := represents.kvExists admitted disabled ran
    exact ⟨map, makes, represents⟩
  | between clock inUse deleted =>
    simp only [UserCall.run, Option.some.injEq, Prod.mk.injEq] at ran
    obtain ⟨rfl, rfl⟩ := ran
    exact ⟨map, Makes.start, represents.idle, represents.keeps⟩

/-- An empty store represents the empty map. -/
theorem represents_blank {state : StoreState ι} (idle : Idle state)
    (blank : ∀ l, state.media l = none) : Represents store pools state fun _ => none := by
  refine ⟨idle, ?_⟩
  intro poolId key _ valid lba _
  exact holds_unmapped (of_decide_eq_true valid).1 (blank lba)

end Runs

/-- The store refines a map: what is seen of any run of undisturbed calls is what the map makes,
whatever map the first state represents, and the last state represents the map that is left. -/
theorem store_refines_map (store : NvmKvStore) (thread : ι) (pools : UInt32 → Prop)
    (noCache : store.cacheSize = 0) (disabled : store.expiryMode = .disableExpiry)
    (limited : PowerOfTwoLimit store.capabilities)
    (vectors : 2 ≤ store.capabilities.nvmMaxNumIovs) (start state : StoreState ι)
    (map : PairKey → Option StoredContent) (represents : Represents store pools start map)
    (trace : List PairEvent)
    (run : TracedRun (UserStep store thread (Undisturbed store pools)) start trace state) :
    ∃ next, Makes (MapStep StoredContent.shown) map trace next ∧
      Represents store pools state next :=
  (simulates_map store thread pools noCache disabled limited vectors).run represents run

/-- A first put is undisturbed. -/
theorem frontKey_clear {pools : UInt32 → Prop} :
    PutsClear NvmKvStore.terabyteStore pools (openedTerabyte fun _ => none) 0
      (bytePair frontKey) := by
  have valid : kvValidateKey frontKey = true := by decide
  constructor
  · exact Or.inl (bytePair_fits (by decide))
  · exact fun _ _ _ => unheld_blank valid
  · intro lba _ taken
    rw [windowFree_iff.mpr fun _ _ => rfl] at taken
    cases taken
  · intro lba _ other rival held l _ rivalValid _ probed holding
    have missing : holds NvmKvStore.terabyteStore (fun _ => none) other rival held = false :=
      unheld_blank rivalValid held probed
    exact absurd (missing.symm.trans holding) Bool.false_ne_true
  · exact fun _ _ _ _ _ _ => bytePair_forges rfl

/-- A question whether a key exists is always answered. -/
theorem kvExists_asked {condition : UserCall → StoreState ι → Prop} {store : NvmKvStore}
    {thread : ι} {state : StoreState ι} {poolId : UInt32} {key : List UInt8}
    (accepted : keyAccepted state poolId key = true)
    (asks : condition (.kvExists poolId key (some fun _ => 0)) state) :
    ∃ answer, UserStep store thread condition state
      (some (MapEvent.asked (poolId, key) 0 answer)) (afterLookup store state poolId key) := by
  refine ⟨(liveHeader store state poolId key).map fun hdr => ⟨[], hdr.valueLen, hdr.genCount⟩,
    .kvExists poolId key (some fun _ => 0), asks, ?_⟩
  rw [UserCall.run, run_kvExists store thread state (fun _ => 0) accepted]
  cases liveHeader store state poolId key <;> rfl

/-- A key is put into an empty store. -/
theorem firstKey_stored {key : List UInt8} {condition : UserCall → StoreState Unit → Prop}
    (valid : kvValidateKey key = true)
    (allocated : ∃ unused, kvAllocForWrite NvmKvStore.terabyteStore.capabilities
      (bytePair key).key.length (bytePair key).value (bytePair key).valueLen plentyMemory.buf =
        .ok ((bytePair key).layout NvmKvStore.terabyteStore, unused))
    (admitted : condition (.kvPut 0 (bytePair key) plentyMemory) (openedTerabyte fun _ => none)) :
    ∃ state, TracedRun (UserStep NvmKvStore.terabyteStore () condition)
        (openedTerabyte fun _ => none) [.stored (0, key) (bytePair key).content] state ∧
      Continues (openedTerabyte fun _ => none) state ∧
      holds NvmKvStore.terabyteStore state.media 0 key
        (NvmKvStore.terabyteStore.probeLba 0 key 0) = true := by
  have accepted : keyAccepted (openedTerabyte fun _ => none) 0 key = true := by
    rw [keyAccepted, valid, Bool.and_true]
    rfl
  have short := (of_decide_eq_true valid).2
  obtain ⟨after, ran, continues, buf, media⟩ := @bytePair_run Unit 0 key ()
    (openedTerabyte fun _ => none) (NvmKvStore.terabyteStore.probeLba 0 key 0) (fun _ => rfl)
    accepted allocated (searchEnd_first (windowFree_iff.mpr fun _ _ => rfl))
    (windowFree_iff.mpr fun _ _ => rfl)
  have put : UserStep NvmKvStore.terabyteStore () condition (openedTerabyte fun _ => none)
      (some (MapEvent.stored (0, key) (bytePair key).content)) after :=
    ⟨.kvPut 0 (bytePair key) plentyMemory, admitted, by rw [UserCall.run, ran]; rfl⟩
  refine ⟨after, TracedRun.further TracedRun.start put, continues, ?_⟩
  rw [holds_written media short short]
  exact decide_eq_true ⟨rfl, rfl⟩

/-- A run of one put into an empty store, after which the key is held. -/
theorem frontKey_stored {condition : UserCall → StoreState Unit → Prop}
    (admitted : condition (.kvPut 0 (bytePair frontKey) plentyMemory)
      (openedTerabyte fun _ => none)) :
    ∃ state, TracedRun (UserStep NvmKvStore.terabyteStore () condition)
        (openedTerabyte fun _ => none) [.stored (0, frontKey) (bytePair frontKey).content] state ∧
      Continues (openedTerabyte fun _ => none) state ∧
      holds NvmKvStore.terabyteStore state.media 0 frontKey frontLba = true :=
  firstKey_stored (by decide) ⟨_, rfl⟩ admitted

/-- It is put and asked for. -/
theorem frontKey_asked {condition : UserCall → StoreState Unit → Prop}
    (admitted : condition (.kvPut 0 (bytePair frontKey) plentyMemory)
      (openedTerabyte fun _ => none))
    (asks : ∀ state, condition (.kvExists 0 frontKey (some fun _ => 0)) state) :
    ∃ state answer, TracedRun (UserStep NvmKvStore.terabyteStore () condition)
      (openedTerabyte fun _ => none)
      [.stored (0, frontKey) (bytePair frontKey).content, .asked (0, frontKey) 0 answer] state := by
  obtain ⟨after, run, continues, _⟩ := frontKey_stored admitted
  obtain ⟨answer, asked⟩ := kvExists_asked (continues.accepts rfl) (asks after)
  exact ⟨_, answer, TracedRun.further run asked⟩

/-- After a first put the store has one key. -/
theorem store_refines_map_first :
    ∃ (state : StoreState Unit) (answer : Option ShownContent)
      (map : PairKey → Option StoredContent),
      Makes (MapStep StoredContent.shown) (fun _ => none)
        [.stored (0, frontKey) (bytePair frontKey).content, .asked (0, frontKey) 0 answer] map ∧
      Represents NvmKvStore.terabyteStore (fun _ => True) state map := by
  obtain ⟨state, answer, run⟩ := @frontKey_asked
    (Undisturbed NvmKvStore.terabyteStore fun _ => True) ⟨trivial, fun _ => frontKey_clear⟩
    fun _ => trivial
  exact ⟨state, answer, store_refines_map NvmKvStore.terabyteStore () (fun _ => True) rfl rfl
    ⟨⟨10, by decide⟩, by decide⟩ (by decide) _ state (fun _ => none)
    (represents_blank (fun _ => rfl) fun _ => rfl) _ run⟩

end Nvmkv
