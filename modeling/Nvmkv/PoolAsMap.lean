import Nvmkv.ConcurrentPuts
import Nvmkv.PairExtents
import Nvmkv.StoreAsMap

/-!
# A pool that is used alone

The addresses of one pool are a slot apart, and no pair or trim reaches over the end of its
slot. As long as all calls go to one pool, no call can therefore touch the sectors of
another pair, and no value is read as a header. What is left of the defects of the store
are the holes and the trims of longer values.

A key that is always given values of as many sectors causes no trim. Holes come from
deletes, so there are none without deletes. There are none either when no two keys have the
same first address: then every key stays at its own. The calls of a user alone decide, in
both cases, that the pool is a map.
-/

namespace Nvmkv

variable {ι : Type}

/-- A call in a pool. A put gives its key a value of the sectors that the key always has, in
the sector of the header or from an aligned buffer. -/
def PlainCall (store : NvmKvStore) (pool : UInt32) (sectors : List UInt8 → Nat) :
    UserCall → Prop
  | .kvPut poolId pair _ => poolId = pool ∧
      (fitsSector store.capabilities pair.key.length pair.valueLen ∨
        pair.value.address % store.sectorSize = 0) ∧
      valueSectors store.capabilities pair.valueLen = sectors pair.key
  | .kvDelete poolId _ _ _ => poolId = pool
  | .kvGet poolId _ value _ readExact _ => poolId = pool ∧ readExact = false ∧
      value.address % store.sectorSize = 0
  | .kvGetKeyInfo poolId _ _ => poolId = pool
  | .kvExists poolId _ _ => poolId = pool
  | .between _ _ _ => True

/-- A call that puts no key outside of a set. -/
def PutsWithin (keys : List UInt8 → Prop) : UserCall → Prop
  | .kvPut _ pair _ => keys pair.key
  | _ => True

/-- A call that is no delete. -/
def DeletesNone : UserCall → Prop
  | .kvDelete _ _ _ _ => False
  | _ => True

/-- The keys of a map are keys of the store, and their values have the sectors of the keys. -/
def HasSectors (store : NvmKvStore) (pool : UInt32) (sectors : List UInt8 → Nat)
    (map : PairKey → Option StoredContent) : Prop :=
  ∀ key content, map (pool, key) = some content → kvValidateKey key = true ∧
    valueSectors store.capabilities content.bytes.length = sectors key

/-- No key of a pool has a hole in front of it. -/
def NoHoles (store : NvmKvStore) (media : Media) (pool : UInt32) : Prop :=
  ∀ key, kvValidateKey key = true → NoHole store media pool key

/-- The keys of a set have first addresses of their own. -/
def OwnHomes (store : NvmKvStore) (pool : UInt32) (keys : List UInt8 → Prop) : Prop :=
  ∀ key rival, keys key → keys rival →
    store.probeLba pool key 0 = store.probeLba pool rival 0 → key = rival

/-- Every mapped sector lies in the window behind the first address of a key, which holds the
key. -/
def AtHome (store : NvmKvStore) (media : Media) (pool : UInt32) (keys : List UInt8 → Prop) :
    Prop :=
  ∀ l, media l ≠ none → ∃ key, keys key ∧ kvValidateKey key = true ∧
    store.InSlot (store.probeLba pool key 0) l ∧
      holds store media pool key (store.probeLba pool key 0) = true

section Apart

variable {store : NvmKvStore} {pool : UInt32} {state : StoreState ι}
  {map : PairKey → Option StoredContent} {key : List UInt8} {lba : Nat}

/-- Two keys are not held by one address. -/
theorem key_of_holds {media : Media} {rival : List UInt8}
    (held : holds store media pool key lba = true)
    (other : holds store media pool rival lba = true) : rival = key :=
  (headerMatches_unique other held).2

/-- A run of sectors behind an address of the pool, which is free or holds the key, has no sector of
another pair, as long as it ends with the slot. The pair of another key ends with its own window, so
that both addresses would be the same. -/
theorem Represents.sparesPairs (represents : Represents store (fun other => other = pool) state map)
    (valid : kvValidateKey key = true) (probed : lba ∈ store.probes pool key)
    (own : windowFree store state.media lba = true ∨
      holds store state.media pool key lba = true) {sectors : Nat}
    (few : sectors ≤ 2 ^ store.valueBits) :
    SparesPairs store (fun other => other = pool) state.media pool key lba sectors := by
  rintro other rival held l rfl rivalValid different rivalProbed holding sector ⟨low, high⟩
  have nonempty := List.length_pos_iff.mp (of_decide_eq_true valid).1
  have rivalNonempty := (of_decide_eq_true rivalValid).1
  have apart := List.length_pos_iff.mp rivalNonempty
  have keeps := represents.keeps other rival rfl rivalValid
  obtain ⟨content, has⟩ := Option.ne_none_iff_exists'.mp (keeps.held rivalProbed holding)
  rw [has] at keeps
  obtain ⟨once, here, kept⟩ := keeps
  obtain rfl := once here kept.probed held rivalProbed kept.stored.held holding
  obtain ⟨front, back⟩ := kept.window sector
  have same : lba = here := by
    rcases Nat.le_total lba here with before | before
    · exact probes_apart nonempty apart probed rivalProbed before (by omega)
    · exact (probes_apart apart nonempty rivalProbed probed before (by omega)).symm
  subst same
  rcases own with free | held
  · rw [holds_free rivalNonempty free] at holding
    cases holding
  · exact different ⟨rfl, key_of_holds held holding⟩

/-- The end of a search is free or holds the key. -/
theorem searchEnd_own {media : Media} (ends : searchEnd store media pool key = some lba) :
    windowFree store media lba = true ∨ holds store media pool key lba = true := by
  have here := List.find?_some ends
  rw [Bool.or_eq_true] at here
  exact here

/-- In a pool that is used alone a put is clear where it finds no hole and the key keeps its
sectors. -/
theorem Represents.putsClear (represents : Represents store (fun other => other = pool) state map)
    {sectors : List UInt8 → Nat} (sized : HasSectors store pool sectors map) {pair : NvmKvIovec}
    {allocation : Allocation} (plain : PlainCall store pool sectors (.kvPut pool pair allocation))
    (accepted : putAccepted store state pool pair = true)
    (noHole : NoHole store state.media pool pair.key) :
    PutsClear store (fun other => other = pool) state pool pair := by
  obtain ⟨_, layout, same⟩ := plain
  rw [putAccepted, Bool.and_eq_true, Bool.and_eq_true] at accepted
  obtain ⟨⟨_, valid⟩, value⟩ := accepted
  have bounded : pair.valueLen ≤ nvmKvMaxValueSize := (of_decide_eq_true value).2.1
  have few := @sectorsWritten_le store (pair.layout store) _ bounded
  constructor
  · exact layout
  · exact noHole
  · intro lba ends taken
    have held := (searchEnd_own ends).resolve_left (by simp [taken])
    have keeps := represents.keeps pool pair.key rfl valid
    obtain ⟨content, has⟩ := Option.ne_none_iff_exists'.mp
      (keeps.held (searchEnd_probed ends) held)
    rw [has] at keeps
    obtain ⟨once, here, kept⟩ := keeps
    obtain rfl := once here kept.probed lba (searchEnd_probed ends) kept.stored.held held
    rw [kept.stored.length, (sized pair.key content has).2, same]
  · intro lba ends
    exact represents.sparesPairs valid (searchEnd_probed ends) (searchEnd_own ends) few
  · rintro other key l rfl keyValid _
    exact not_forgesAt_pool valid keyValid bounded

/-- The key of an accepted put is valid. -/
theorem valid_of_putAccepted {pair : NvmKvIovec}
    (accepted : putAccepted store state pool pair = true) : kvValidateKey pair.key = true := by
  rw [putAccepted, Bool.and_eq_true, Bool.and_eq_true] at accepted
  exact accepted.1.2

/-- So is every other call in the pool. -/
theorem Represents.undisturbed
    (represents : Represents store (fun other => other = pool) state map)
    {sectors : List UInt8 → Nat} (sized : HasSectors store pool sectors map) {call : UserCall}
    (plain : PlainCall store pool sectors call)
    (noHole : ∀ pair allocation, call = .kvPut pool pair allocation →
      kvValidateKey pair.key = true → NoHole store state.media pool pair.key) :
    Undisturbed store (fun other => other = pool) call state := by
  cases call with
  | kvPut poolId pair allocation =>
    obtain rfl := plain.1
    refine ⟨rfl, fun accepted => ?_⟩
    have valid := valid_of_putAccepted accepted
    exact represents.putsClear sized plain accepted (noHole pair allocation rfl valid)
  | kvDelete poolId key buf allocated =>
    obtain rfl : poolId = pool := plain
    refine ⟨rfl, fun accepted lba found => ?_⟩
    exact represents.sparesPairs (valid_of_accepted accepted) (List.mem_of_find?_eq_some found)
      (Or.inr (List.find?_some found)) le_rfl
  | kvGet poolId key value valueLen readExact buf => exact plain
  | kvGetKeyInfo poolId key buf => exact plain
  | kvExists poolId key buf => exact plain
  | between clock inUse deleted => trivial

end Apart

section Calls

variable {store : NvmKvStore} {thread : ι} {pool : UInt32} {state after : StoreState ι}
  {map next : PairKey → Option StoredContent} {sectors : List UInt8 → Nat} {call : UserCall}
  {event : Option PairEvent}

/-- Only a put stores, and it stores the content of its pair. -/
theorem stored_of_run (noCache : store.cacheSize = 0) (idle : Idle state) {key : PairKey}
    {content : StoredContent}
    (ran : call.run store thread state = some (some (.stored key content), after)) :
    ∃ poolId pair allocation, call = .kvPut poolId pair allocation ∧ key = (poolId, pair.key) ∧
      content = pair.content ∧ kvValidateKey pair.key = true := by
  cases call with
  | kvPut poolId pair allocation =>
    simp only [UserCall.run, Option.map_eq_some_iff] at ran
    obtain ⟨⟨result, reached⟩, ended, shown⟩ := ran
    simp only [Prod.map, id, Prod.mk.injEq] at shown
    cases result with
    | ok length =>
      simp only [putEvent, Option.some.injEq, MapEvent.stored.injEq] at shown
      rcases sequential_put noCache idle ended with
        ⟨⟨code, failed⟩, _⟩ | ⟨_, lba, trimLen, memory, trims, buf, written⟩
      · cases failed
      · exact ⟨poolId, pair, allocation, rfl, shown.1.1.symm, shown.1.2.symm,
          valid_of_putAccepted written.ready.accepted⟩
    | error code => cases code <;> simp [putEvent] at shown
  | kvDelete poolId key buf allocated =>
    simp only [UserCall.run, Option.map_eq_some_iff] at ran
    obtain ⟨⟨result, reached⟩, _, shown⟩ := ran
    cases result <;> simp [Prod.map, deleteEvent] at shown
  | kvGet poolId key value valueLen readExact buf =>
    simp only [UserCall.run, Option.map_eq_some_iff] at ran
    obtain ⟨⟨result, reached⟩, _, shown⟩ := ran
    cases result with
    | ok got => simp [Prod.map, getEvent] at shown
    | error code => cases code <;> simp [Prod.map, getEvent] at shown
  | kvGetKeyInfo poolId key buf =>
    simp only [UserCall.run, Option.map_eq_some_iff] at ran
    obtain ⟨⟨result, reached⟩, _, shown⟩ := ran
    cases result with
    | ok info => simp [Prod.map, infoEvent, Except.map] at shown
    | error code => cases code <;> simp [Prod.map, infoEvent, Except.map] at shown
  | kvExists poolId key buf =>
    simp only [UserCall.run, Option.map_eq_some_iff] at ran
    obtain ⟨⟨result, reached⟩, _, shown⟩ := ran
    cases result with
    | ok info => cases info <;> simp [Prod.map, infoEvent] at shown
    | error code => cases code <;> simp [Prod.map, infoEvent] at shown
  | between clock inUse deleted => simp [UserCall.run] at ran

/-- Plain calls give every key values of its sectors. -/
theorem HasSectors.step (sized : HasSectors store pool sectors map)
    (noCache : store.cacheSize = 0) (idle : Idle state) (plain : PlainCall store pool sectors call)
    (ran : call.run store thread state = some (event, after))
    (makes : Makes (MapStep StoredContent.shown) map event.toList next) :
    HasSectors store pool sectors next := by
  cases event with
  | none =>
    rw [makes.of_nil]
    exact sized
  | some event =>
    intro key content has
    rw [makes.of_single.content (pool, key)] at has
    cases event with
    | stored other value =>
      simp only [MapEvent.content] at has
      split_ifs at has with same
      · obtain ⟨poolId, pair, allocation, rfl, pairKey, rfl, valid⟩ :=
          stored_of_run noCache idle ran
        rw [pairKey, Prod.mk.injEq] at same
        cases has
        rw [← same.2, ← plain.2.2]
        exact ⟨valid, by simp [NvmKvIovec.content]⟩
      · exact sized key content has
    | removed other =>
      simp only [MapEvent.content] at has
      split_ifs at has
      exact sized key content has
    | refused other => exact sized key content has
    | asked other query answer => exact sized key content has

/-- A plain call leaves the media, or it is a put that is written, or a delete that trims the
window behind its key. -/
theorem Represents.effect
    (represents : Represents store (fun other => other = pool) state map)
    (noCache : store.cacheSize = 0) (disabled : store.expiryMode = .disableExpiry)
    (vectors : 2 ≤ store.capabilities.nvmMaxNumIovs) (plain : PlainCall store pool sectors call)
    (ran : call.run store thread state = some (event, after)) :
    after.media = state.media ∨
      (∃ pair allocation lba trimLen memory trims buf, call = .kvPut pool pair allocation ∧
        PutWritten store thread pool pair allocation state after lba trimLen memory trims buf) ∨
      ∃ key buf allocated lba, call = .kvDelete pool key buf allocated ∧
        kvValidateKey key = true ∧ lookupLba store state.media pool key = some lba ∧
        after.media = state.media.trim lba (2 ^ store.valueBits) := by
  cases call with
  | kvPut poolId pair allocation =>
    obtain rfl := plain.1
    simp only [UserCall.run, Option.map_eq_some_iff] at ran
    obtain ⟨⟨result, reached⟩, ended, shown⟩ := ran
    simp only [Prod.map, id, Prod.mk.injEq] at shown
    obtain ⟨rfl, rfl⟩ := shown
    rcases sequential_put noCache represents.idle ended with
      ⟨_, rfl⟩ | ⟨_, lba, trimLen, memory, trims, buf, written⟩
    · exact Or.inl rfl
    · exact Or.inr (Or.inl ⟨pair, allocation, lba, trimLen, memory, trims, buf, rfl, written⟩)
  | kvDelete poolId key buf allocated =>
    obtain rfl : poolId = pool := plain
    simp only [UserCall.run, Option.map_eq_some_iff] at ran
    obtain ⟨⟨result, reached⟩, ended, shown⟩ := ran
    simp only [Prod.map, id, Prod.mk.injEq] at shown
    obtain ⟨rfl, rfl⟩ := shown
    rcases sequential_delete noCache represents.idle ended with
      ⟨rfl, _⟩ | ⟨lba, found, rfl, media, _⟩
    · exact Or.inl rfl
    · have valid := valid_of_accepted (accepted_of_deleted noCache represents.idle ended)
      exact Or.inr (Or.inr ⟨key, buf, allocated, lba, rfl, valid, found, media⟩)
  | kvGet poolId key value valueLen readExact buf =>
    obtain ⟨member, rfl, aligned⟩ := plain
    obtain ⟨rfl, _⟩ := represents.kvGet member disabled vectors aligned ran
    exact Or.inl rfl
  | kvGetKeyInfo poolId key buf =>
    obtain ⟨rfl, _⟩ := represents.kvGetKeyInfo plain disabled ran
    exact Or.inl rfl
  | kvExists poolId key buf =>
    obtain ⟨rfl, _⟩ := represents.kvExists plain disabled ran
    exact Or.inl rfl
  | between clock inUse deleted =>
    simp only [UserCall.run, Option.some.injEq, Prod.mk.injEq] at ran
    obtain ⟨_, rfl⟩ := ran
    exact Or.inl rfl

end Calls

/-- The first elements that two predicates find are the same, when each of them satisfies the
other predicate. Induction follows the list. -/
theorem find_eq_of_both {α : Type} {first second : α → Bool} {list : List α} {x y : α}
    (found : list.find? first = some x) (other : list.find? second = some y)
    (back : first y = true) (forth : second x = true) : x = y := by
  induction list with
  | nil => cases found
  | cons head rest inductionHypothesis =>
    cases here : first head with
    | true =>
      rw [List.find?_cons_of_pos here, Option.some.injEq] at found
      subst found
      rw [List.find?_cons_of_pos forth, Option.some.injEq] at other
      exact other
    | false =>
      rw [List.find?_cons_of_neg (by simp [here])] at found
      cases there : second head with
      | true =>
        rw [List.find?_cons_of_pos there, Option.some.injEq] at other
        subst other
        rw [back] at here
        cases here
      | false =>
        rw [List.find?_cons_of_neg (by simp [there])] at other
        exact inductionHypothesis found other

section Puts

variable {store : NvmKvStore} {thread : ι} {pool : UInt32} {state after : StoreState ι}
  {map : PairKey → Option StoredContent} {pair : NvmKvIovec} {allocation : Allocation}
  {lba trimLen : Nat} {memory : Nat → NvmIovec} {trims : List NvmIovec} {buf : Region}

/-- What a clear put does to the sectors of a pool: those of its pair are mapped, with the header
of its key at the address, and all others stay. No other address holds the key. -/
structure PutSectors (store : NvmKvStore) (pool : UInt32) (pair : NvmKvIovec) (before after : Media)
    (lba : Nat) : Prop where
  valid : kvValidateKey pair.key = true
  ends : searchEnd store before pool pair.key = some lba
  held : holds store after pool pair.key lba = true
  alone : HeldOnce store after pool pair.key
  extent : valueSectors store.capabilities
      ((storedHeader store after lba).valueOffset + (storedHeader store after lba).valueLen) =
    sectorsWritten store.capabilities (pair.layout store) pair.valueLen
  few : sectorsWritten store.capabilities (pair.layout store) pair.valueLen ≤ 2 ^ store.poolBits + 1
  written : ∀ l, lba ≤ l →
    l < lba + sectorsWritten store.capabilities (pair.layout store) pair.valueLen → after l ≠ none
  kept : ∀ l, ¬(lba ≤ l ∧
    l < lba + sectorsWritten store.capabilities (pair.layout store) pair.valueLen) →
      after l = before l

/-- The header of a pair that was written tells how many sectors it has. -/
theorem CompletePair.sectors {buf : Region} {clock : Nat} {media : Media}
    (complete : CompletePair store pool pair buf clock lba media)
    (short : pair.key.length ≤ nvmKvMaxKeySize) (positive : 0 < pair.valueLen)
    (bounded : pair.valueLen ≤ nvmKvMaxValueSize)
    (layout : fitsSector store.capabilities pair.key.length pair.valueLen ∨
      pair.value.address % store.sectorSize = 0) :
    valueSectors store.capabilities
        ((storedHeader store media lba).valueOffset + (storedHeader store media lba).valueLen) =
      sectorsWritten store.capabilities (pair.layout store) pair.valueLen := by
  obtain ⟨length, offset, _⟩ := @readHeader_firstSector store pool pair buf clock short bounded
  rw [storedHeader_sector complete.first, length, offset, NvmKvIovec.layout]
  by_cases fits : fitsSector store.capabilities pair.key.length pair.valueLen
  · have sector : mKvHeaderSize + pair.key.length + pair.valueLen ≤
      store.capabilities.nvmSectorSize := fits
    rw [writeLayout_fits pair.value fits]
    simp only [sectorsWritten, Bool.false_eq_true, if_false, valueSectors]
    have some := store.capabilities.sector_positive
    apply Nat.div_eq_of_lt_le <;> omega
  · rw [writeLayout_aligned fits (layout.resolve_left fits)]
    simp only [sectorsWritten, if_true]
    exact valueSectors_behind store pair.valueLen

/-- A put of one user changes the sectors of its own pair only, as a put on the map of its pool has
it. -/
theorem PutWritten.sectors (noCache : store.cacheSize = 0)
    (disabled : store.expiryMode = .disableExpiry) (limited : PowerOfTwoLimit store.capabilities)
    {pools : UInt32 → Prop} (clear : PutsClear store pools state pool pair)
    (written : PutWritten store thread pool pair allocation state after lba trimLen memory trims
      buf) (once : HeldOnce store after.media pool pair.key) :
    PutSectors store pool pair state.media after.media lba := by
  obtain ⟨⟨nonempty, short⟩, positive, bounded⟩ := written.ready.lengths
  have media := written.media noCache disabled limited clear
  have sectors := (completePair_of_written media).sectors short positive bounded clear.layout
  have valid : kvValidateKey pair.key = true := decide_eq_true ⟨nonempty, short⟩
  refine ⟨valid, (written.searchEnd noCache disabled).1,
    (written.keptAt noCache disabled limited clear).stored.held, once, sectors, ?_, ?_, ?_⟩
  · obtain ⟨_, most, _⟩ := @NvmKvStore.pairSectors_upper store pair.key.length pair.valueLen
      pair.value short positive bounded
    exact (sectorsWritten_le_pairSectors ⟨valid,
      decide_eq_true ⟨positive, bounded, fun impossible => Bool.noConfusion impossible⟩⟩).trans most
  · intro l low high
    rw [media, ← Option.isSome_iff_ne_none]
    exact pairWritten_mapped _ _ _ _ ⟨low, high⟩
  · intro l outside
    rw [media]
    exact pairWritten_outside _ _ _ _ (by omega)

variable {before next : Media}

/-- A sector is as before, or it is mapped and in the slot behind the address. -/
theorem PutSectors.sectors (put : PutSectors store pool pair before next lba) (l : Nat) :
    next l = before l ∨ store.InSlot lba l ∧ next l ≠ none := by
  by_cases inside : lba ≤ l ∧
      l < lba + sectorsWritten store.capabilities (pair.layout store) pair.valueLen
  · have halves := @NvmKvStore.slot_halves store
    have offsets := Nat.two_pow_pos store.poolBits
    have few := put.few
    exact Or.inr ⟨⟨inside.1, by omega⟩, put.written l inside.1 inside.2⟩
  · exact Or.inl (put.kept l inside)

/-- A window that is free after a put was free before. -/
theorem PutSectors.free (put : PutSectors store pool pair before next lba) {l : Nat}
    (free : windowFree store next l = true) : windowFree store before l = true := by
  rw [windowFree_iff] at free ⊢
  intro i inside
  rcases put.sectors (l + i) with same | ⟨_, mapped⟩
  · rw [← same]
    exact free i inside
  · exact absurd (free i inside) mapped

/-- An address of the pool in the window of the put is the address of the put. -/
theorem PutSectors.at_address (put : PutSectors store pool pair before next lba)
    {key : List UInt8} (valid : kvValidateKey key = true) {l : Nat}
    (probed : l ∈ store.probes pool key) (inside : store.InSlot lba l) : l = lba :=
  (probes_apart (List.length_pos_iff.mp (of_decide_eq_true put.valid).1)
    (List.length_pos_iff.mp (of_decide_eq_true valid).1) (searchEnd_probed put.ends) probed
    inside.1 inside.2).symm

/-- The addresses of the pool hold the other keys that they held, if the address of the put held
none of them. -/
theorem PutSectors.holds_iff (put : PutSectors store pool pair before next lba)
    {key : List UInt8} (valid : kvValidateKey key = true) (different : key ≠ pair.key) {l : Nat}
    (probed : l ∈ store.probes pool key) :
    holds store next pool key l = true ↔ holds store before pool key l = true ∧ l ≠ lba := by
  obtain ⟨nonempty, short⟩ := of_decide_eq_true valid
  by_cases here : l = lba
  · subst here
    constructor
    · intro held
      exact absurd (key_of_holds put.held held) different
    · rintro ⟨_, other⟩
      exact absurd rfl other
  · rcases put.sectors l with same | ⟨inside, _⟩
    · rw [holds_congr short same]
      simp [here]
    · exact absurd (put.at_address valid probed inside) here

/-- The end of a search before a put is not the address of another key's pair. -/
theorem PutSectors.other_address (put : PutSectors store pool pair before next lba)
    {key : List UInt8} (valid : kvValidateKey key = true) (different : key ≠ pair.key) {l : Nat}
    (held : holds store before pool key l = true) : l ≠ lba := by
  rintro rfl
  rcases searchEnd_own put.ends with free | own
  · rw [holds_free (of_decide_eq_true valid).1 free] at held
    cases held
  · exact different (key_of_holds own held)

/-- A put leaves no hole where there was none: it makes no window free, and its own key is found
where it was written. -/
theorem NoHoles.put (noHoles : NoHoles store before pool)
    (put : PutSectors store pool pair before next lba) : NoHoles store next pool := by
  intro key valid last ends free
  have freeBefore := put.free free
  have nonempty := (of_decide_eq_true valid).1
  have stops : (windowFree store before last || holds store before pool key last) = true := by
    rw [freeBefore, Bool.true_or]
  by_cases own : key = pair.key
  · subst own
    have same := find_eq_of_both put.ends ends stops (by rw [put.held, Bool.or_true])
    subst same
    have unheld : holds store next pool pair.key lba = false := holds_free nonempty free
    rw [put.held] at unheld
    cases unheld
  · have some : (searchEnd store before pool key).isSome = true :=
      List.find?_isSome.mpr ⟨last, searchEnd_probed ends, stops⟩
    obtain ⟨first, endsBefore⟩ := Option.isSome_iff_exists.mp some
    rcases searchEnd_own endsBefore with firstFree | held
    · intro l probed
      rw [Bool.eq_false_iff]
      intro held
      have before := ((put.holds_iff valid own probed).mp held).1
      rw [noHoles key valid first endsBefore firstFree l probed] at before
      cases before
    · have stays := (put.holds_iff valid own (searchEnd_probed endsBefore)).mpr
        ⟨held, put.other_address valid own held⟩
      have same := find_eq_of_both endsBefore ends stops (by rw [stays, Bool.or_true])
      subst same
      rw [holds_free nonempty free] at stays
      cases stays

end Puts

section Homes

variable {store : NvmKvStore} {pool : UInt32} {keys : List UInt8 → Prop} {before next : Media}
  {pair : NvmKvIovec} {lba : Nat}

/-- The first address of a key is one of its addresses. -/
theorem home_probed (store : NvmKvStore) (pool : UInt32) (key : List UInt8) :
    store.probeLba pool key 0 ∈ store.probes pool key := by
  obtain ⟨later, probes⟩ := probes_head store pool key
  simp [probes]

/-- An address of the pool whose window shares a sector with that of the first address of a key
is that address. -/
theorem home_eq {key rival : List UInt8} (valid : kvValidateKey key = true)
    (rivalValid : kvValidateKey rival = true) {l address : Nat}
    (probed : address ∈ store.probes pool rival)
    (own : store.InSlot (store.probeLba pool key 0) l) (inside : store.InSlot address l) :
    address = store.probeLba pool key 0 := by
  have nonempty := List.length_pos_iff.mp (of_decide_eq_true valid).1
  have rivalNonempty := List.length_pos_iff.mp (of_decide_eq_true rivalValid).1
  obtain ⟨ownFront, ownBack⟩ := own
  obtain ⟨front, back⟩ := inside
  rcases Nat.le_total address (store.probeLba pool key 0) with less | less
  · exact probes_apart rivalNonempty nonempty probed (home_probed store pool key) less (by omega)
  · exact (probes_apart nonempty rivalNonempty (home_probed store pool key) probed less
      (by omega)).symm

/-- A key is held by its first address only, and the window there is free when it is not. A mapped
sector of that window belongs to the key of its address. -/
theorem AtHome.searchEnd (homes : OwnHomes store pool keys)
    (atHome : AtHome store before pool keys) {key : List UInt8} (member : keys key)
    (valid : kvValidateKey key = true) :
    searchEnd store before pool key = some (store.probeLba pool key 0) := by
  obtain ⟨later, probes⟩ := probes_head store pool key
  have stops : (windowFree store before (store.probeLba pool key 0) ||
      holds store before pool key (store.probeLba pool key 0)) = true := by
    rw [Bool.or_eq_true]
    by_contra neither
    rw [not_or] at neither
    obtain ⟨taken, other⟩ := neither
    have mapped : ∃ i, i < 2 ^ store.valueBits ∧
        before (store.probeLba pool key 0 + i) ≠ none := by
      by_contra unmapped
      apply taken
      rw [windowFree_iff]
      intro i inside
      by_contra some
      exact unmapped ⟨i, inside, some⟩
    obtain ⟨i, inside, mapped⟩ := mapped
    obtain ⟨rival, rivalMember, rivalValid, window, held⟩ := atHome _ mapped
    have same := home_eq rivalValid valid (home_probed store pool key) window
      ⟨Nat.le_add_right _ _, Nat.add_lt_add_left inside _⟩
    have key_eq := homes key rival member rivalMember same
    subst key_eq
    exact other held
  rw [Nvmkv.searchEnd, probes]
  exact List.find?_cons_of_pos stops

/-- So there is no hole in front of it. -/
theorem AtHome.noHole (homes : OwnHomes store pool keys) (atHome : AtHome store before pool keys)
    {key : List UInt8} (member : keys key) (valid : kvValidateKey key = true) :
    NoHole store before pool key := by
  intro lba ends free l probed
  have nonempty := (of_decide_eq_true valid).1
  rw [atHome.searchEnd homes member valid, Option.some.injEq] at ends
  subst ends
  rw [Bool.eq_false_iff]
  intro held
  obtain ⟨rival, rivalMember, rivalValid, window, rivalHeld⟩ :=
    atHome l (mapped_of_holds nonempty held)
  have here := home_eq rivalValid valid probed window
    ⟨le_rfl, Nat.lt_add_of_pos_right (Nat.two_pow_pos _)⟩
  rw [← here] at rivalHeld
  have same := key_of_holds held rivalHeld
  subst same
  rw [here, holds_free nonempty free] at held
  cases held

/-- A put of a key of the set writes it at its first address. -/
theorem AtHome.put (homes : OwnHomes store pool keys) (atHome : AtHome store before pool keys)
    (put : PutSectors store pool pair before next lba) (member : keys pair.key) :
    AtHome store next pool keys := by
  have home : store.probeLba pool pair.key 0 = lba := by
    have ends := put.ends
    rw [atHome.searchEnd homes member put.valid, Option.some.injEq] at ends
    exact ends
  intro l mapped
  rcases put.sectors l with same | ⟨inside, _⟩
  · rw [same] at mapped
    obtain ⟨key, keyMember, valid, window, held⟩ := atHome l mapped
    refine ⟨key, keyMember, valid, window, ?_⟩
    by_cases own : key = pair.key
    · subst own
      rw [home]
      exact put.held
    · exact (put.holds_iff valid own (home_probed store pool key)).mpr
        ⟨held, put.other_address valid own held⟩
  · refine ⟨pair.key, member, put.valid, ?_, ?_⟩
    · rw [home]
      exact inside
    · rw [home]
      exact put.held

/-- A delete trims the window of one key, whose sectors are all there. -/
theorem AtHome.trim (atHome : AtHome store before pool keys) {key : List UInt8}
    (valid : kvValidateKey key = true) (found : lookupLba store before pool key = some lba) :
    AtHome store (before.trim lba (2 ^ store.valueBits)) pool keys := by
  intro l mapped
  have outside : ¬store.InSlot lba l := fun inside => mapped (Media.trim_inside inside)
  rw [Media.trim_outside outside] at mapped
  obtain ⟨rival, member, rivalValid, window, held⟩ := atHome l mapped
  refine ⟨rival, member, rivalValid, window, ?_⟩
  have apart : ¬store.InSlot lba (store.probeLba pool rival 0) := by
    intro inside
    have same := home_eq rivalValid valid (List.mem_of_find?_eq_some found)
      ⟨le_rfl, Nat.lt_add_of_pos_right (Nat.two_pow_pos _)⟩ inside
    rw [same] at outside
    exact outside window
  rw [holds_congr (of_decide_eq_true rivalValid).2 (Media.trim_outside apart)]
  exact held

end Homes

section Runs

variable {store : NvmKvStore} {thread : ι} {pool : UInt32} {sectors : List UInt8 → Nat}
  {condition : UserCall → Prop} {invariant : Media → Prop}

/-- Runs of plain calls are runs of a map, when something is kept about the media that rules out
holes: by every put that is written, and by every delete. -/
theorem represents_of_invariant (noCache : store.cacheSize = 0)
    (disabled : store.expiryMode = .disableExpiry) (limited : PowerOfTwoLimit store.capabilities)
    (vectors : 2 ≤ store.capabilities.nvmMaxNumIovs)
    (plain : ∀ call, condition call → PlainCall store pool sectors call)
    (noHole : ∀ media pair allocation, invariant media → condition (.kvPut pool pair allocation) →
      kvValidateKey pair.key = true → NoHole store media pool pair.key)
    (put : ∀ before after pair allocation lba, invariant before →
      condition (.kvPut pool pair allocation) →
        PutSectors store pool pair before after lba → invariant after)
    (trim : ∀ before key buf allocated lba, invariant before →
      condition (.kvDelete pool key buf allocated) → kvValidateKey key = true →
        lookupLba store before pool key = some lba →
          invariant (before.trim lba (2 ^ store.valueBits)))
    {start state : StoreState ι} (idle : Idle start) (blank : ∀ l, start.media l = none)
    (initial : invariant start.media) {trace : List PairEvent}
    (run : TracedRun (UserStep store thread fun call _ => condition call) start trace state) :
    ∃ map, Makes (MapStep StoredContent.shown) (fun _ => none) trace map ∧
      invariant state.media ∧ Represents store (fun other => other = pool) state map ∧
        HasSectors store pool sectors map := by
  have simulates : Simulates (UserStep store thread fun call _ => condition call)
      (MapStep StoredContent.shown) fun (state : StoreState ι) map => invariant state.media ∧
        Represents store (fun other => other = pool) state map ∧
          HasSectors store pool sectors map := by
    rintro state map event after ⟨kept, represents, sized⟩ ⟨call, admitted, ran⟩
    have plainCall := plain call admitted
    have noHoles : ∀ pair allocation, call = .kvPut pool pair allocation →
        kvValidateKey pair.key = true → NoHole store state.media pool pair.key := by
      rintro pair allocation rfl valid
      exact noHole _ pair allocation kept admitted valid
    have clear := represents.undisturbed sized plainCall noHoles
    obtain ⟨next, makes, again⟩ := simulates_map store thread (fun other => other = pool) noCache
      disabled limited vectors _ _ _ _ represents ⟨call, clear, ran⟩
    refine ⟨next, makes, ?_, again, sized.step noCache represents.idle plainCall ran makes⟩
    rcases represents.effect noCache disabled vectors plainCall ran with
      same | ⟨pair, allocation, lba, trimLen, memory, trims, buf, rfl, written⟩ |
        ⟨key, buf, allocated, lba, rfl, valid, found, media⟩
    · rw [same]
      exact kept
    · exact put _ _ pair allocation lba kept admitted
        (written.sectors noCache disabled limited (clear.2 written.ready.accepted)
          (again.keeps pool pair.key rfl (valid_of_putAccepted written.ready.accepted)).heldOnce)
    · rw [media]
      exact trim _ key buf allocated lba kept admitted valid found
  apply simulates.run _ run
  refine ⟨initial, represents_blank idle blank, ?_⟩
  intro key content has
  cases has

end Runs

/-- A pool that is used alone and without deletes is a map: from an empty store on, every answer
in a run of puts and lookups is about the value that was put last. -/
theorem filled_pool_is_map (store : NvmKvStore) (thread : ι) (pool : UInt32)
    (sectors : List UInt8 → Nat) (noCache : store.cacheSize = 0)
    (disabled : store.expiryMode = .disableExpiry) (limited : PowerOfTwoLimit store.capabilities)
    (vectors : 2 ≤ store.capabilities.nvmMaxNumIovs) (start state : StoreState ι)
    (idle : Idle start) (blank : ∀ l, start.media l = none) (trace : List PairEvent)
    (run : TracedRun (UserStep store thread fun call _ =>
      PlainCall store pool sectors call ∧ DeletesNone call) start trace state) :
    AnswersLatest StoredContent.shown trace := by
  have represents := @represents_of_invariant ι store thread pool sectors
    (fun call => PlainCall store pool sectors call ∧ DeletesNone call)
    (fun media => NoHoles store media pool) noCache disabled limited vectors
    (fun _ admitted => admitted.1) ?_ ?_ ?_ start state idle blank ?_ trace run
  · obtain ⟨map, makes, _⟩ := represents
    exact makes.answersLatest
  · intro media pair allocation noHoles _ valid
    exact noHoles pair.key valid
  · intro before after pair allocation lba noHoles _ put
    exact noHoles.put put
  · intro before key buf allocated lba _ admitted
    exact absurd admitted.2 id
  · intro key valid lba _ _ l _
    exact holds_unmapped (of_decide_eq_true valid).1 (blank l)

/-- The key of a first put is asked for, and its information is that of the put. -/
theorem filled_pool_is_map_first : ∃ (state : StoreState Unit) (answer : Option ShownContent),
    TracedRun (UserStep NvmKvStore.terabyteStore () fun call _ =>
        PlainCall NvmKvStore.terabyteStore 0 (fun _ => 1) call ∧ DeletesNone call)
      (openedTerabyte fun _ => none)
      [.stored (0, frontKey) (bytePair frontKey).content, .asked (0, frontKey) 0 answer] state ∧
    answer = some ⟨[], 1, 0⟩ := by
  obtain ⟨state, answer, run⟩ := @frontKey_asked (fun call _ =>
      PlainCall NvmKvStore.terabyteStore 0 (fun _ => 1) call ∧ DeletesNone call)
    ⟨⟨rfl, Or.inl (bytePair_fits (by decide)), by decide⟩, trivial⟩ fun _ => ⟨rfl, trivial⟩
  have latest := filled_pool_is_map NvmKvStore.terabyteStore () 0 (fun _ => 1) rfl rfl
    ⟨⟨10, by decide⟩, by decide⟩ (by decide) _ state (fun _ => rfl) (fun _ => rfl) _ run
  exact ⟨state, answer, run, @AnswersLatest.after_stored _ _ _ _ _ _ _ latest _ _ _ _ [] [] [] rfl
    fun _ none => absurd none List.not_mem_nil⟩

/-- A pool that is used alone for keys with first addresses of their own is a map: from an empty
store on, every answer in a run of puts, deletes and lookups is about the value that was put
last and not deleted. -/
theorem homed_pool_is_map (store : NvmKvStore) (thread : ι) (pool : UInt32)
    (sectors : List UInt8 → Nat) (keys : List UInt8 → Prop) (homes : OwnHomes store pool keys)
    (noCache : store.cacheSize = 0) (disabled : store.expiryMode = .disableExpiry)
    (limited : PowerOfTwoLimit store.capabilities)
    (vectors : 2 ≤ store.capabilities.nvmMaxNumIovs) (start state : StoreState ι)
    (idle : Idle start) (blank : ∀ l, start.media l = none) (trace : List PairEvent)
    (run : TracedRun (UserStep store thread fun call _ =>
      PlainCall store pool sectors call ∧ PutsWithin keys call) start trace state) :
    AnswersLatest StoredContent.shown trace := by
  have represents := @represents_of_invariant ι store thread pool sectors
    (fun call => PlainCall store pool sectors call ∧ PutsWithin keys call)
    (fun media => AtHome store media pool keys) noCache disabled limited vectors
    (fun _ admitted => admitted.1) ?_ ?_ ?_ start state idle blank ?_ trace run
  · obtain ⟨map, makes, _⟩ := represents
    exact makes.answersLatest
  · intro media pair allocation atHome admitted valid
    exact atHome.noHole homes admitted.2 valid
  · intro before after pair allocation lba atHome admitted put
    exact atHome.put homes put admitted.2
  · intro before key buf allocated lba atHome _ valid found
    exact atHome.trim valid found
  · intro l mapped
    exact absurd (blank l) mapped

/-- A key is put, deleted and asked for, and it is not there. -/
theorem homed_pool_is_map_first : ∃ (state : StoreState Unit) (answer : Option ShownContent),
    TracedRun (UserStep NvmKvStore.terabyteStore () fun call _ =>
        PlainCall NvmKvStore.terabyteStore 0 (fun _ => 1) call ∧
          PutsWithin (fun key => key = frontKey) call)
      (openedTerabyte fun _ => none)
      [.stored (0, frontKey) (bytePair frontKey).content, .removed (0, frontKey),
        .asked (0, frontKey) 0 answer] state ∧
    answer = none := by
  obtain ⟨stored, put, continues, held⟩ := @frontKey_stored (fun call _ =>
      PlainCall NvmKvStore.terabyteStore 0 (fun _ => 1) call ∧
        PutsWithin (fun key => key = frontKey) call)
    ⟨⟨rfl, Or.inl (bytePair_fits (by decide)), by decide⟩, rfl⟩
  obtain ⟨removed, deleted, again, _⟩ := @delete_step Unit NvmKvStore.terabyteStore () 0 stored rfl
    continues.idle frontKey (continues.accepts rfl) frontLba (lookupLba_first held) fun _ => 0
  obtain ⟨answer, asked⟩ := @kvExists_asked Unit (fun call _ =>
      PlainCall NvmKvStore.terabyteStore 0 (fun _ => 1) call ∧
        PutsWithin (fun key => key = frontKey) call) NvmKvStore.terabyteStore () removed 0 frontKey
    (again.accepts (continues.accepts rfl)) ⟨rfl, trivial⟩
  have removes : UserStep NvmKvStore.terabyteStore () (fun call _ =>
      PlainCall NvmKvStore.terabyteStore 0 (fun _ => 1) call ∧
        PutsWithin (fun key => key = frontKey) call) stored (some (.removed (0, frontKey)))
      removed := by
    refine ⟨.kvDelete 0 frontKey (some fun _ => 0) true, ⟨rfl, trivial⟩, ?_⟩
    rw [UserCall.run, deleted]
    rfl
  have run := (put.further removes).further asked
  have latest := homed_pool_is_map NvmKvStore.terabyteStore () 0 (fun _ => 1)
    (fun key => key = frontKey) (fun _ _ first second _ => first.trans second.symm) rfl rfl
    ⟨⟨10, by decide⟩, by decide⟩ (by decide) _ _ (fun _ => rfl) (fun _ => rfl) _ run
  exact ⟨_, answer, run, @AnswersLatest.after_removed _ _ _ _ _ _ _ latest _ _ _ [_] [] [] rfl
    fun _ none => absurd none List.not_mem_nil⟩

end Nvmkv
