import Nvmkv.UniqueKeys

/-!
# What deletes and replacements leave of other pairs

A delete trims a whole window behind the address at which its key is found, whatever the
length of the pair. The pool offset of that address may lie in front of those of other
pools, so the window can have sectors of pairs that follow in the same slot, and of pairs
in front of the offset in the next slot. A replacement writes at the old address without
looking at what follows there, so a longer value can be written over the pair of another
pool.

What a call leaves of the other live pairs is stated sector by sector. A sector belongs to
a pair when it lies before the end of the value, as the header at its front has it.
-/

namespace Nvmkv

variable {ι : Type}

/-- A sector of the pair that starts at an address. -/
def PairSector (store : NvmKvStore) (media : Media) (lba l : Nat) : Prop :=
  lba ≤ l ∧ l < lba + valueSectors store.capabilities
    ((storedHeader store media lba).valueOffset + (storedHeader store media lba).valueLen)

/-- A mapped sector of a live pair, of any pool, that is not the pair of a key. -/
def OtherSector (store : NvmKvStore) (state : StoreState ι) (poolId : UInt32) (key : List UInt8)
    (l : Nat) : Prop :=
  state.media l ≠ none ∧ ∃ other rival lba, ¬(other = poolId ∧ rival = key) ∧
    keyAccepted state other rival = true ∧ LivePair store state other rival lba ∧
      PairSector store state.media lba l

/-- All other live pairs keep their sectors. -/
def KeepsOthers (store : NvmKvStore) (state after : StoreState ι) (poolId : UInt32)
    (key : List UInt8) : Prop :=
  ∀ l, OtherSector store state poolId key l → after.media l = state.media l

/-- No sector of another live pair lies in the window behind the address at which a key is
found. -/
def WindowApart (store : NvmKvStore) (state : StoreState ι) (poolId : UInt32)
    (key : List UInt8) : Prop :=
  ∀ lba, lookupLba store state.media poolId key = some lba →
    ∀ l, OtherSector store state poolId key l → ¬store.InSlot lba l

/-- No sector of another live pair lies where a put with replacement writes, or trims the
rest of the old value. -/
def ReplacesApart (store : NvmKvStore) (state : StoreState ι) (poolId : UInt32)
    (pair : NvmKvIovec) : Prop :=
  ∀ lba, replaceAddress store state poolId pair.key = some lba →
    ∀ l, OtherSector store state poolId pair.key l →
      ¬(lba ≤ l ∧ l < lba + sectorsWritten store.capabilities (pair.layout store) pair.valueLen) ∧
      ¬TrimmedSector store.capabilities pair.valueLen (replacedLength store state poolId pair.key)
        lba l

section Frames

variable {store : NvmKvStore} {thread : ι} {poolId : UInt32} {state after : StoreState ι}

/-- A delete that succeeds keeps all other pairs exactly when its window is apart from them. -/
theorem keepsOthers_delete_iff (noCache : store.cacheSize = 0) (idle : Idle state)
    {key : List UInt8} {buf : Option Region} {allocated : Bool}
    (ran : (kvDelete store poolId key buf allocated).run (answer store thread) state =
      some (.ok (), after)) :
    KeepsOthers store state after poolId key ↔ WindowApart store state poolId key := by
  rcases sequential_delete noCache idle ran with ⟨same, absent⟩ | ⟨lba, found, _, media, _⟩
  · subst same
    constructor
    · intro _ lba found
      rw [absent rfl] at found
      cases found
    · exact fun _ _ _ => rfl
  · constructor
    · intro keeps other otherFound l belongs inside
      rw [found, Option.some.injEq] at otherFound
      subst otherFound
      have kept := keeps l belongs
      rw [media, Media.trim_inside inside] at kept
      exact belongs.1 kept.symm
    · intro apart l belongs
      rw [media, Media.trim_outside (apart lba found l belongs)]

/-- A put with replacement that is written changes sectors of its pair and of the rest of the old
value only. Nothing lies between the new value and an old value without sectors. -/
theorem PutWritten.frame (noCache : store.cacheSize = 0) {pair : NvmKvIovec}
    {allocation : Allocation} {lba trimLen : Nat} {memory : Nat → NvmIovec}
    {trims : List NvmIovec} {buf : Region}
    (written : PutWritten store thread poolId pair allocation state after lba trimLen memory trims
      buf) (replaces : pair.replace = true) (filled : pair.Filled store) (l : Nat) :
    after.media l = state.media l ∨
      TrimmedSector store.capabilities pair.valueLen (replacedLength store state poolId pair.key)
        lba l ∨
      (lba ≤ l ∧
        l < lba + sectorsWritten store.capabilities (pair.layout store) pair.valueLen) := by
  have missed : cacheAnswer store state poolId pair.key = (false, .zero) := if_neg (by omega)
  obtain ⟨_, positive, bounded⟩ := written.ready.lengths
  have target := written.ready.target
  rw [putTarget_replace replaces, Option.map_eq_some_iff] at target
  obtain ⟨address, found, same⟩ := target
  rw [Prod.mk.injEq] at same
  obtain ⟨rfl, rfl⟩ := same
  have word : replacedLength store state poolId pair.key < 2 ^ 32 := by
    simp only [replacedLength, missed, found, Bool.false_eq_true, if_false, Option.map_some,
      Option.getD_some]
    exact placedLength_word
  rw [written.reached]
  rcases put_sector state.media positive bounded (by split <;> omega) (by split <;> omega)
    written.ready.trimmed filled l with kept | ⟨trimmed, _⟩ | ⟨inside, _⟩
  · exact Or.inl kept
  · split at trimmed
    · exact Or.inr (Or.inl trimmed)
    · obtain ⟨low, high⟩ := trimmed
      have least : valueSectors store.capabilities 0 ≤
          valueSectors store.capabilities pair.valueLen := Nat.div_le_div_right (by omega)
      omega
  · exact Or.inr (Or.inr inside)

/-- A put with replacement keeps all other pairs when it is apart from them. -/
theorem keepsOthers_replace (noCache : store.cacheSize = 0) (idle : Idle state)
    {pair : NvmKvIovec} {allocation : Allocation} {result : Except NvmErrorCode Nat}
    (replaces : pair.replace = true) (filled : pair.Filled store)
    (apart : ReplacesApart store state poolId pair)
    (ran : (kvPut store poolId pair allocation).run (answer store thread) state =
      some (result, after)) : KeepsOthers store state after poolId pair.key := by
  rcases sequential_put noCache idle ran with
    ⟨_, same⟩ | ⟨_, lba, trimLen, memory, trims, buf, written⟩
  · subst same
    exact fun _ _ => rfl
  · intro l belongs
    have target := written.ready.target
    rw [putTarget_replace replaces, Option.map_eq_some_iff] at target
    obtain ⟨address, found, same⟩ := target
    rw [Prod.mk.injEq] at same
    obtain ⟨rfl, _⟩ := same
    obtain ⟨unwritten, untrimmed⟩ := apart address found l belongs
    rcases written.frame noCache replaces filled l with kept | trimmed | inside
    · exact kept
    · exact absurd trimmed untrimmed
    · exact absurd inside unwritten

end Frames

/-- In every state that is reached, a delete that succeeds keeps all sectors of all other live
pairs exactly when none of them lies in its window, and one that fails changes nothing. -/
theorem delete_frame_iff (store : NvmKvStore) (thread : ι) (noCache : store.cacheSize = 0)
    (start state after : StoreState ι) (first : Idle start)
    (run : SequentialRun store thread (fun _ _ => True) start state)
    (poolId : UInt32) (key : List UInt8) (buf : Option Region) (allocated : Bool)
    (result : Except NvmErrorCode Unit)
    (ran : (kvDelete store poolId key buf allocated).run (answer store thread) state =
      some (result, after)) :
    (result = .ok () → (KeepsOthers store state after poolId key ↔
      WindowApart store state poolId key)) ∧ (result ≠ .ok () → after = state) := by
  have idle := run.idle noCache first
  constructor
  · rintro rfl
    exact keepsOthers_delete_iff noCache idle ran
  · intro failed
    rcases sequential_delete noCache idle ran with ⟨same, _⟩ | ⟨_, _, success, _⟩
    · exact same
    · exact absurd success failed

/-- In every state that is reached, a put with replacement keeps all sectors of all other live
pairs when none of them lies where it writes, or trims the rest of the old value. -/
theorem replace_frame (store : NvmKvStore) (thread : ι) (noCache : store.cacheSize = 0)
    (start state after : StoreState ι) (first : Idle start)
    (run : SequentialRun store thread (fun _ _ => True) start state)
    (poolId : UInt32) (pair : NvmKvIovec) (allocation : Allocation)
    (result : Except NvmErrorCode Nat) (replaces : pair.replace = true)
    (filled : pair.Filled store) (apart : ReplacesApart store state poolId pair)
    (ran : (kvPut store poolId pair allocation).run (answer store thread) state =
      some (result, after)) : KeepsOthers store state after poolId pair.key :=
  keepsOthers_replace noCache (run.idle noCache first) replaces filled apart ran

/-- A put from an aligned buffer writes the first sector of a long value behind its address. -/
theorem PutReady.long_step {store : NvmKvStore} {poolId : UInt32} {pair : NvmKvIovec}
    {allocation : Allocation} {state : StoreState ι} {memory : Nat → NvmIovec} {lba trimLen : Nat}
    (ready : PutReady store state poolId pair allocation memory [] lba trimLen) (thread : ι)
    (idle : Idle state) (long : ¬fitsSector store.capabilities pair.key.length pair.valueLen)
    (aligned : pair.value.address % store.sectorSize = 0)
    (counted : CountsVectors store.capabilities
      (bufferLength store.capabilities pair.key.length pair.valueLen)) :
    ∃ after, (kvPut store poolId pair allocation).run (answer store thread) state =
        some (.ok pair.valueLen, after) ∧ after.media (lba + 1) = some pair.value.bytes := by
  obtain ⟨buf, ran⟩ := ready.run thread idle
  have written := @PutReady.media_after _ _ thread _ _ _ _ _ _ _ ready (.inr aligned) counted buf
  refine ⟨_, ran, ?_⟩
  have user : (pair.layout store).userBufferUsage = true := by
    rw [NvmKvIovec.layout, writeLayout_aligned long aligned]
  have sectors : 0 < valueSectors store.capabilities pair.valueLen := by
    have covers := (valueSectors_covers store.capabilities pair.valueLen).1
    have positive := ready.lengths.2.1
    apply Nat.pos_of_ne_zero
    intro none
    rw [none, Nat.zero_mul] at covers
    omega
  rw [written, pairWritten, if_pos user,
    Media.write_inside ⟨le_rfl, Nat.lt_add_of_pos_right sectors⟩, Nat.sub_self, Nat.zero_mul,
    Region.drop_zero]

section Neighbours

/-- A sector of the terabyte store has the only sector of a short pair. -/
def HasByte (media : Media) (poolId : UInt32) (key : List UInt8) (lba : Nat) : Prop :=
  ∃ buf clock, media lba = some (firstSector NvmKvStore.terabyteStore poolId (bytePair key)
    ((bytePair key).layout NvmKvStore.terabyteStore) buf clock)

/-- The key of the pool 0 whose first address is in front of that of the other key. -/
def frontmostKey : List UInt8 := [109]

/-- The store has two short pairs in sectors that follow each other. -/
structure Neighbours (state : StoreState Unit) : Prop where
  continues : Continues openedTwoPools state
  front : HasByte state.media 0 frontmostKey forgingLba
  behind : HasByte state.media 1 forgedKey (forgingLba + 1)
  others : ∀ l, l ≠ forgingLba → l ≠ forgingLba + 1 → state.media l = none

section Sectors

variable {media : Media} {poolId : UInt32} {key : List UInt8} {lba : Nat}

/-- Where a pair of one byte is stored, its own key is held and no other one. -/
theorem HasByte.holds (stored : HasByte media poolId key lba)
    (pairShort : key.length ≤ nvmKvMaxKeySize) {other : UInt32} {rival : List UInt8}
    (short : rival.length ≤ nvmKvMaxKeySize) :
    holds NvmKvStore.terabyteStore media other rival lba =
      decide (poolId = other ∧ key = rival) := by
  obtain ⟨buf, clock, sector⟩ := stored
  rw [holds_sector short sector]
  exact headerMatches_firstSector pairShort short

/-- The length of the value as its header has it. -/
theorem HasByte.valueLen (stored : HasByte media poolId key lba)
    (pairShort : key.length ≤ nvmKvMaxKeySize) :
    (storedHeader NvmKvStore.terabyteStore media lba).valueLen = 1 ∧
      (storedHeader NvmKvStore.terabyteStore media lba).valueOffset =
        mKvHeaderSize + key.length := by
  obtain ⟨buf, clock, sector⟩ := stored
  obtain ⟨length, offset, _⟩ := @readHeader_firstSector NvmKvStore.terabyteStore poolId
    (bytePair key) buf clock pairShort (show 1 ≤ nvmKvMaxValueSize by decide)
  rw [storedHeader_sector sector]
  refine ⟨length, offset.trans ?_⟩
  rw [writeLayout_fits _ (bytePair_fits pairShort)]
  rfl

/-- The pair has one sector. -/
theorem HasByte.pairSector_iff (stored : HasByte media poolId key lba)
    (pairShort : key.length ≤ nvmKvMaxKeySize) {l : Nat} :
    PairSector NvmKvStore.terabyteStore media lba l ↔ l = lba := by
  obtain ⟨length, offset⟩ := stored.valueLen pairShort
  have limit : nvmKvMaxKeySize = 128 := rfl
  have header : mKvHeaderSize = 40 := rfl
  have one : valueSectors NvmKvStore.terabyteStore.capabilities
      (mKvHeaderSize + key.length + 1) = 1 := by
    change (mKvHeaderSize + key.length + 1 + (512 - 1)) / 512 = 1
    omega
  rw [PairSector, offset, length, one]
  omega

end Sectors

/-- Two puts lead there. -/
theorem neighbouring_puts : ∃ state : StoreState Unit,
    SequentialRun NvmKvStore.terabyteStore () (fun _ _ => True) openedTwoPools state ∧
      Neighbours state := by
  have next : NvmKvStore.terabyteStore.probeLba 1 forgedKey 0 = forgingLba + 1 := forgedKey_address
  obtain ⟨one, firstPut, continuesOne, bufOne, mediaOne⟩ := @bytePair_put 0 frontmostKey
    openedTwoPools forgingLba (fun _ => rfl) (fun _ _ => True) trivial rfl ⟨_, rfl⟩
    (searchEnd_first (windowFree_iff.mpr fun _ _ => rfl)) (windowFree_iff.mpr fun _ _ => rfl)
  have freeOne : windowFree NvmKvStore.terabyteStore one.media (forgingLba + 1) = true := by
    rw [windowFree_iff]
    intro i _
    rw [mediaOne, Function.update_of_ne (by omega)]
    rfl
  have secondEnd : searchEnd NvmKvStore.terabyteStore one.media 1 forgedKey =
      some (forgingLba + 1) := by
    rw [← next]
    exact searchEnd_first (by rw [next]; exact freeOne)
  obtain ⟨two, secondPut, continuesTwo, bufTwo, mediaTwo⟩ := @bytePair_put 1 forgedKey one
    (forgingLba + 1) continuesOne.idle (fun _ _ => True) trivial (continuesOne.accepts rfl)
    ⟨_, rfl⟩ secondEnd freeOne
  refine ⟨two, (Relation.ReflTransGen.single firstPut).tail secondPut,
    ⟨continuesTwo.idle, continuesTwo.inUse.trans continuesOne.inUse,
      continuesTwo.deleted.trans continuesOne.deleted⟩, ⟨bufOne, 0, ?_⟩, ⟨bufTwo, one.clock, ?_⟩,
    ?_⟩
  · rw [mediaTwo, Function.update_of_ne (by omega), mediaOne, Function.update_self]
    rfl
  · rw [mediaTwo, Function.update_self]
  · intro l notFront notBehind
    rw [mediaTwo, Function.update_of_ne notBehind, mediaOne, Function.update_of_ne notFront]
    rfl

namespace Neighbours

variable {state : StoreState Unit}

/-- The other pair lives in the sector behind the first one. -/
theorem behind_live (neighbours : Neighbours state) :
    OtherSector NvmKvStore.terabyteStore state 0 frontmostKey (forgingLba + 1) := by
  have held : holds NvmKvStore.terabyteStore state.media 1 forgedKey (forgingLba + 1) = true :=
    neighbours.behind.holds (by decide) (by decide)
  have found : lookupLba NvmKvStore.terabyteStore state.media 1 forgedKey =
      some (forgingLba + 1) := by
    rw [← forgedKey_address]
    exact lookupLba_first (by rw [forgedKey_address]; exact held)
  exact ⟨mapped_of_holds (by decide) held, 1, forgedKey, forgingLba + 1, by decide,
    neighbours.continues.accepts rfl, ⟨by decide, found, rfl⟩,
    (neighbours.behind.pairSector_iff (by decide)).mpr rfl⟩

/-- The sectors of other pairs are those of the two. -/
theorem otherSector (neighbours : Neighbours state) {poolId : UInt32} {key : List UInt8} {l : Nat}
    (belongs : OtherSector NvmKvStore.terabyteStore state poolId key l) :
    l = forgingLba ∧ ¬((0 : UInt32) = poolId ∧ frontmostKey = key) ∨
      l = forgingLba + 1 ∧ ¬((1 : UInt32) = poolId ∧ forgedKey = key) := by
  obtain ⟨_, other, rival, lba, another, _, live, inside⟩ := belongs
  obtain ⟨nonempty, short⟩ := of_decide_eq_true live.accepted
  have held := List.find?_some live.found
  have mapped := mapped_of_holds nonempty held
  by_cases front : lba = forgingLba
  · subst front
    left
    rw [neighbours.front.holds (by decide) short, decide_eq_true_eq] at held
    refine ⟨(neighbours.front.pairSector_iff (by decide)).mp inside, ?_⟩
    rintro ⟨rfl, rfl⟩
    exact another ⟨held.1.symm, held.2.symm⟩
  · by_cases behind : lba = forgingLba + 1
    · subst behind
      right
      rw [neighbours.behind.holds (by decide) short, decide_eq_true_eq] at held
      refine ⟨(neighbours.behind.pairSector_iff (by decide)).mp inside, ?_⟩
      rintro ⟨rfl, rfl⟩
      exact another ⟨held.1.symm, held.2.symm⟩
    · exact absurd (neighbours.others lba front behind) mapped

/-- A put of the front key finds a value of one byte at its first address. -/
theorem replaces (neighbours : Neighbours state) :
    replaceAddress NvmKvStore.terabyteStore state 0 frontmostKey = some forgingLba ∧
      replacedLength NvmKvStore.terabyteStore state 0 frontmostKey = 1 := by
  have held : Nvmkv.holds NvmKvStore.terabyteStore state.media 0 frontmostKey forgingLba = true :=
    neighbours.front.holds (by decide) (by decide)
  obtain ⟨address, _, old⟩ := @replaceAddress_first _ NvmKvStore.terabyteStore state 0 frontmostKey
    rfl (.inr held)
  refine ⟨address, old.trans ?_⟩
  have taken : windowFree NvmKvStore.terabyteStore state.media forgingLba = false :=
    windowFree_mapped (mapped_of_holds (by decide) held)
  have unexpired : pairExpired NvmKvStore.terabyteStore state.clock
      (storedHeader NvmKvStore.terabyteStore state.media forgingLba) = false := rfl
  change placedLength NvmKvStore.terabyteStore state.clock state.media forgingLba = 1
  rw [placedLength, taken, unexpired, Bool.or_self, if_neg Bool.false_ne_true]
  exact (neighbours.front.valueLen (by decide)).1

/-- So every such put that is not shorter has what it needs. -/
theorem ready (neighbours : Neighbours state) {pair : NvmKvIovec} (key : pair.key = frontmostKey)
    (replace : pair.replace = true) (positive : 1 ≤ pair.valueLen)
    (accepted : kvValidateValue NvmKvStore.terabyteStore false pair.valueLen = true)
    (allocated : ∃ unused, kvAllocForWrite NvmKvStore.terabyteStore.capabilities pair.key.length
      pair.value pair.valueLen plentyMemory.buf =
        .ok (pair.layout NvmKvStore.terabyteStore, unused)) :
    ∃ memory, PutReady NvmKvStore.terabyteStore state 0 pair plentyMemory memory [] forgingLba
      0 := by
  obtain ⟨address, old⟩ := neighbours.replaces
  have keyAccepts : keyAccepted state 0 pair.key = true := by
    rw [key]
    exact neighbours.continues.accepts rfl
  refine ⟨_, ?_, rfl, allocated, ?_, rfl, rfl⟩
  · rw [putAccepted, accepted, Bool.and_true]
    exact keyAccepts
  · rw [putTarget_replace replace, key, address, old, Option.map_some, if_neg (by omega)]

end Neighbours

/-- A delete of the pair behind keeps the one in front. -/
theorem delete_frame_behind : ∃ state after : StoreState Unit,
    (kvDelete NvmKvStore.terabyteStore 1 forgedKey (some fun _ => 0) true).run
      (answer NvmKvStore.terabyteStore ()) state = some (.ok (), after) ∧
    KeepsOthers NvmKvStore.terabyteStore state after 1 forgedKey := by
  obtain ⟨state, run, neighbours⟩ := neighbouring_puts
  have held : holds NvmKvStore.terabyteStore state.media 1 forgedKey (forgingLba + 1) = true :=
    neighbours.behind.holds (by decide) (by decide)
  have found : lookupLba NvmKvStore.terabyteStore state.media 1 forgedKey =
      some (forgingLba + 1) := by
    rw [← forgedKey_address]
    exact lookupLba_first (by rw [forgedKey_address]; exact held)
  obtain ⟨after, ran, _, _⟩ := @delete_step Unit NvmKvStore.terabyteStore () 1 state rfl
    neighbours.continues.idle forgedKey (neighbours.continues.accepts rfl) (forgingLba + 1) found
    fun _ => 0
  refine ⟨state, after, ran, ((delete_frame_iff NvmKvStore.terabyteStore () rfl openedTwoPools state
    after (fun _ => rfl) run 1 forgedKey _ _ _ ran).1 rfl).mpr ?_⟩
  intro lba otherFound l belongs inside
  rw [found, Option.some.injEq] at otherFound
  subst otherFound
  rcases neighbours.otherSector belongs with ⟨front, _⟩ | ⟨_, another⟩
  · have := inside.1
    omega
  · exact another ⟨rfl, rfl⟩

/-- A delete of the pair in front trims the one behind. -/
theorem delete_trims_neighbour :
    ¬∀ (store : NvmKvStore) (start state after : StoreState Unit), store.cacheSize = 0 →
      Idle start → (∀ l, start.media l = none) →
      SequentialRun store () (fun _ _ => True) start state →
      ∀ poolId key buf allocated result,
        (kvDelete store poolId key buf allocated).run (answer store ()) state =
          some (result, after) → KeepsOthers store state after poolId key := by
  intro keeps
  obtain ⟨state, run, neighbours⟩ := neighbouring_puts
  have held : holds NvmKvStore.terabyteStore state.media 0 frontmostKey forgingLba = true :=
    neighbours.front.holds (by decide) (by decide)
  obtain ⟨after, ran, _, media⟩ := @delete_step Unit NvmKvStore.terabyteStore () 0 state rfl
    neighbours.continues.idle frontmostKey (neighbours.continues.accepts rfl) forgingLba
    (lookupLba_first held) fun _ => 0
  have lives := neighbours.behind_live
  have kept := keeps _ _ _ _ rfl (fun _ => rfl) (fun _ => rfl) run _ _ _ _ _ ran _ lives
  have bits : NvmKvStore.terabyteStore.valueBits = 12 := by decide
  rw [media, Media.trim_inside ⟨by omega, by rw [bits]; omega⟩] at kept
  exact lives.1 kept.symm

/-- Replacing a value of one byte by another one keeps the pair behind. -/
theorem replace_frame_short : ∃ state after : StoreState Unit,
    (kvPut NvmKvStore.terabyteStore 0 (bytePair frontmostKey) plentyMemory).run
      (answer NvmKvStore.terabyteStore ()) state = some (.ok 1, after) ∧
    KeepsOthers NvmKvStore.terabyteStore state after 0 frontmostKey := by
  obtain ⟨state, run, neighbours⟩ := neighbouring_puts
  obtain ⟨memory, ready⟩ := @Neighbours.ready state neighbours (bytePair frontmostKey) rfl rfl
    le_rfl (by decide) ⟨_, rfl⟩
  obtain ⟨buf, ran⟩ := ready.run () neighbours.continues.idle
  refine ⟨state, _, ran, replace_frame NvmKvStore.terabyteStore () rfl openedTwoPools state _
    (fun _ => rfl) run 0 (bytePair frontmostKey) plentyMemory _ rfl (by decide) ?_ ran⟩
  obtain ⟨address, old⟩ := neighbours.replaces
  intro lba target l belongs
  replace target := address.symm.trans target
  rw [Option.some.injEq] at target
  subst target
  have length : sectorsWritten NvmKvStore.terabyteStore.capabilities
      ((bytePair frontmostKey).layout NvmKvStore.terabyteStore) 1 = 1 := by decide
  have one : valueSectors NvmKvStore.terabyteStore.capabilities 1 = 1 := by decide
  have replaced : replacedLength NvmKvStore.terabyteStore state 0 (bytePair frontmostKey).key = 1 :=
    old
  have short : (bytePair frontmostKey).valueLen = 1 := rfl
  rw [TrimmedSector, replaced, short, one, length]
  rcases neighbours.otherSector belongs with ⟨_, another⟩ | ⟨behind, _⟩
  · exact absurd ⟨rfl, rfl⟩ another
  · omega

/-- The front key with a value that has a sector of its own. -/
def longerPair : NvmKvIovec := ⟨frontmostKey, ⟨0, fun _ => 1⟩, 512, 0, 0, true⟩

/-- Replacing the value by this one writes over the pair behind. -/
theorem replace_overwrites_neighbour :
    ¬∀ (store : NvmKvStore) (start state after : StoreState Unit), store.cacheSize = 0 →
      Idle start → (∀ l, start.media l = none) →
      SequentialRun store () (fun _ _ => True) start state →
      ∀ poolId pair allocation result, pair.replace = true →
        (∃ lba, lookupLba store state.media poolId pair.key = some lba) →
        (kvPut store poolId pair allocation).run (answer store ()) state = some (result, after) →
        KeepsOthers store state after poolId pair.key := by
  intro keeps
  obtain ⟨state, run, neighbours⟩ := neighbouring_puts
  have held : holds NvmKvStore.terabyteStore state.media 0 frontmostKey forgingLba = true :=
    neighbours.front.holds (by decide) (by decide)
  obtain ⟨memory, ready⟩ := @Neighbours.ready state neighbours longerPair rfl rfl (by decide)
    (by decide) ⟨_, rfl⟩
  have counted : CountsVectors NvmKvStore.terabyteStore.capabilities (bufferLength
      NvmKvStore.terabyteStore.capabilities longerPair.key.length longerPair.valueLen) :=
    PowerOfTwoLimit.counts ⟨⟨10, by decide⟩, by decide⟩ (by decide)
  obtain ⟨after, ran, sector⟩ := ready.long_step () neighbours.continues.idle (by decide) rfl
    counted
  have kept := keeps _ _ _ after rfl (fun _ => rfl) (fun _ => rfl) run 0 longerPair _ _ rfl
    ⟨_, lookupLba_first held⟩ ran (forgingLba + 1) neighbours.behind_live
  have stillHeld : holds NvmKvStore.terabyteStore after.media 1 forgedKey (forgingLba + 1) =
      true := by
    rw [holds_congr (by decide) kept]
    exact neighbours.behind.holds (by decide) (by decide)
  rw [holds_sector (by decide) sector] at stillHeld
  exact absurd stillHeld (by decide)

end Neighbours

end Nvmkv
