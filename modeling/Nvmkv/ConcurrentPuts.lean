import Nvmkv.PairExtents
import Nvmkv.RoundTrip
import Nvmkv.SlotOutlines

/-!
# Puts at the same time

Several puts run on one store without a cache, each call of the device and of the safe list
by itself. A put that is written keeps its sectors from puts of other keys when three things
hold. No put takes an address without waiting that has come to hold another key since the put
read it. No pair reaches from one of the addresses to the next, which in one pool is always
so. And a put hands over only vectors that it has filled.

The addresses that are held keep the puts of one address apart: the header of a written put
stays at its address, and a put with another key that holds the address would have found it
there.
-/

namespace Nvmkv

variable {ι : Type} {store : NvmKvStore}

/-- A put with its arguments and the memory it gets. -/
structure PutCall where
  poolId : UInt32
  pair : NvmKvIovec
  allocation : Allocation

namespace PutCall

/-- The program of a put. -/
def program (store : NvmKvStore) (call : PutCall) : StoreM (Except NvmErrorCode Nat) :=
  kvPut store call.poolId call.pair call.allocation

/-- The addresses at which a put may write. -/
def probes (store : NvmKvStore) (call : PutCall) : List Nat :=
  store.probes call.poolId call.pair.key

/-- Two puts name the same key of the same pool. -/
def SameKey (call other : PutCall) : Prop :=
  call.poolId = other.poolId ∧ call.pair.key = other.pair.key

/-- An address holds the key of a put. -/
def Holds (store : NvmKvStore) (media : Media) (call : PutCall) (lba : Nat) : Prop :=
  Nvmkv.holds store media call.poolId call.pair.key lba = true

/-- The sectors of a put's pair, those that its value would have included. -/
def sectors (store : NvmKvStore) (call : PutCall) : Nat :=
  pairSectors store.capabilities call.pair.key.length call.pair.value call.pair.valueLen

end PutCall

/-- The puts of a store, and the media on which they start. -/
structure PutSystem (ι : Type) where
  store : NvmKvStore
  calls : ι → PutCall
  media : Media

namespace PutSystem

variable (system : PutSystem ι)

/-- A configuration of puts. -/
abbrev Config (ι : Type) := Nvmkv.Config StoreOp StoreRes (Except NvmErrorCode Nat) (StoreState ι) ι

/-- A number of sectors that pairs of a put's key take at an address: the pair of a valid put
with this key, or the value that was recorded there before. -/
def Takes (call : PutCall) (lba sectors : Nat) : Prop :=
  (∃ thread, (system.calls thread).pair.Valid system.store ∧
      (system.calls thread).SameKey call ∧
        sectors = (system.calls thread).sectors system.store) ∨
    call.Holds system.store system.media lba ∧
      sectors = valueSectors system.store.capabilities
        (storedHeader system.store system.media lba).valueLen

/-- No pair reaches from an address of one valid put to a higher address of another. -/
def Apart : Prop :=
  ∀ first second, (system.calls first).pair.Valid system.store →
    (system.calls second).pair.Valid system.store →
    ∀ lba ∈ (system.calls first).probes system.store,
    ∀ other ∈ (system.calls second).probes system.store, lba < other →
      ∀ sectors, system.Takes (system.calls first) lba sectors → lba + sectors ≤ other

/-- What the batch of a put at an address does: it covers sectors that a pair of the key takes
there, and leaves at the address its own header or what was there. Its write vectors begin
with the header. -/
structure HandsAt (call : PutCall) (lba : Nat) (iovec : List NvmIovec) : Prop where
  probed : lba ∈ call.probes system.store
  covers : ∀ vector ∈ iovec, ∀ l, Media.Covers system.store.sectorSize vector l →
    ∃ sectors, system.Takes call lba sectors ∧ lba ≤ l ∧ l < lba + sectors
  header : ∀ media : Media, media.applyBatch system.store.sectorSize iovec lba = media lba ∨
    ∃ buf clock, media.applyBatch system.store.sectorSize iovec lba =
      some (firstSector system.store call.poolId call.pair (call.pair.layout system.store) buf
        clock)
  writes : (∃ vector ∈ iovec, vector.iovOpcode = .write) → ∀ media : Media, ∃ buf clock,
    media.applyBatch system.store.sectorSize iovec lba =
      some (firstSector system.store call.poolId call.pair (call.pair.layout system.store) buf
        clock)

end PutSystem

section Handed

variable {poolId : UInt32} {pair : NvmKvIovec} {buf : Region} {clock lba count : Nat}
  {trims : List NvmIovec}

/-- The first write vector of a pair covers the address. -/
theorem putIovec_head : ∃ first rest,
    putIovec store poolId pair (pair.layout store) buf clock lba = first :: rest ∧
      Media.Covers store.sectorSize first lba := by
  have positive : 0 < store.capabilities.nvmSectorSize := store.sector_positive
  have one : store.capabilities.nvmSectorSize / store.capabilities.nvmSectorSize = 1 :=
    Nat.div_self positive
  obtain ⟨limit, some, limited⟩ := maxWrite_sectors store.capabilities
  have atLeast : store.capabilities.nvmSectorSize ≤ store.capabilities.maxWriteSize := by
    rw [limited]
    exact Nat.le_mul_of_pos_left _ some
  unfold putIovec pairIovec
  dsimp only
  split
  · refine ⟨_, _, rfl, le_rfl, ?_⟩
    change lba < lba + store.capabilities.nvmSectorSize / store.capabilities.nvmSectorSize
    omega
  · obtain ⟨fuel, size⟩ : ∃ fuel, store.capabilities.nvmSectorSize = fuel + 1 :=
      ⟨store.capabilities.nvmSectorSize - 1, by omega⟩
    have more : store.capabilities.nvmSectorSize ≠ 0 := by omega
    generalize poolBuffer _ = source
    have fill : ∀ remaining, remaining = store.capabilities.nvmSectorSize →
        ∃ first rest, fillIovec store.capabilities source lba (fuel + 1) remaining 0 =
          first :: rest ∧ Media.Covers store.sectorSize first lba := by
      rintro remaining rfl
      rw [fillIovec, if_neg more]
      refine ⟨_, _, rfl, by simp, ?_⟩
      have least : store.capabilities.nvmSectorSize ≤
          if store.capabilities.nvmSectorSize < store.capabilities.maxWriteSize then
            store.capabilities.nvmSectorSize else store.capabilities.maxWriteSize := by
        split_ifs
        · exact le_rfl
        · exact atLeast
      have quotient := Nat.div_le_div_right (c := store.capabilities.nvmSectorSize) least
      dsimp only
      rw [one] at quotient
      change lba < lba + 0 * _ + _ / store.capabilities.nvmSectorSize
      omega
    have filled := fill _ rfl
    rw [← size] at filled
    exact filled

/-- When some write vector is handed over, the first one is. -/
theorem head_mem_take {first : NvmIovec} {rest : List NvmIovec}
    (trim : ∀ vector ∈ trims, vector.iovOpcode = .trim)
    (writes : ∃ vector ∈ (trims ++ first :: rest).take count, vector.iovOpcode = .write) :
    first ∈ (trims ++ first :: rest).take count := by
  obtain ⟨vector, taken, opcode⟩ := writes
  rw [List.take_append, List.mem_append] at taken ⊢
  rcases taken with early | late
  · rw [trim vector (List.mem_of_mem_take early)] at opcode
    cases opcode
  · right
    cases left : count - trims.length with
    | zero =>
      rw [left, List.take_zero] at late
      cases late
    | succ more => exact List.mem_cons_self

/-- The sectors written for a pair are among its sectors. -/
theorem sectorsWritten_le_pairSectors (valid : pair.Valid store) :
    sectorsWritten store.capabilities (pair.layout store) pair.valueLen ≤
      pairSectors store.capabilities pair.key.length pair.value pair.valueLen := by
  obtain ⟨positive, bounded, _⟩ := of_decide_eq_true valid.2
  rw [pairSectors_eq pair.value (of_decide_eq_true valid.1).2 positive bounded, sectorsWritten]
  by_cases fits : fitsSector store.capabilities pair.key.length pair.valueLen
  · rw [if_pos fits, NvmKvIovec.layout, writeLayout_fits pair.value fits]
    exact le_rfl
  · rw [if_neg fits]
    split_ifs <;> omega

end Handed

namespace PutSystem

variable (system : PutSystem ι)

/-- The length of a value that a put replaces at an address: none, or one that takes no more
sectors there than a pair of the key. -/
def Replaces (call : PutCall) (lba trimLen : Nat) : Prop :=
  trimLen < 2 ^ 32 ∧ (trimLen = 0 ∨ call.pair.valueLen < trimLen ∧
    ∃ sectors, system.Takes call lba sectors ∧
      valueSectors system.store.capabilities trimLen ≤ sectors)

variable {system} {thread : ι} {call : PutCall} {lba trimLen clock : Nat} {buf : Region}
  {trims : List NvmIovec} {memory : Nat → NvmIovec}

/-- The batch of a put is one at its address. A trim stays behind the address and within the longer
value. -/
theorem handsAt_handed (valid : call.pair.Valid system.store)
    (filled : call.pair.Filled system.store) (own : call = system.calls thread)
    (probed : lba ∈ call.probes system.store) (replaces : system.Replaces call lba trimLen)
    (trimmed : kvProcessForTrim system.store.capabilities call.pair.valueLen trimLen lba =
      .ok trims) :
    system.HandsAt call lba (handedIovec memory (trims ++ putIovec system.store call.poolId
      call.pair (call.pair.layout system.store) buf clock lba)
      (call.pair.layout system.store).iovCount) := by
  obtain ⟨word, longer⟩ := replaces
  obtain ⟨positive, bounded, _⟩ := of_decide_eq_true valid.2
  have limit : (nvmKvMaxValueSize : Nat) = 1047552 := rfl
  have longerOnly : trimLen = 0 ∨ call.pair.valueLen < trimLen := longer.imp_right And.left
  have some : 0 < valueSectors system.store.capabilities call.pair.valueLen := by
    have covers := (valueSectors_covers system.store.capabilities call.pair.valueLen).1
    apply Nat.pos_of_ne_zero
    intro none
    rw [none, Nat.zero_mul] at covers
    omega
  have enough : (call.pair.layout system.store).iovCount ≤
      (trims ++ putIovec system.store call.poolId call.pair (call.pair.layout system.store) buf
        clock lba).length := by
    have counted : (call.pair.layout system.store).iovCount ≤
      vectorsFilled system.store.capabilities (call.pair.layout system.store)
        call.pair.valueLen := filled
    rw [List.length_append, putIovec, pairIovec_length]
    omega
  have trimCovers : ∀ vector ∈ trims, ∀ l, Media.Covers system.store.sectorSize vector l →
      TrimmedSector system.store.capabilities call.pair.valueLen trimLen lba l := by
    intro vector member l covered
    exact (kvProcessForTrim_covers positive bounded word longerOnly trimmed member covered).1
  have writeContent : ∀ media : Media, ∀ vector ∈ putIovec system.store call.poolId call.pair
      (call.pair.layout system.store) buf clock lba, ∀ l,
      Media.Covers system.store.sectorSize vector l →
      (lba ≤ l ∧ l < lba + sectorsWritten system.store.capabilities
        (call.pair.layout system.store) call.pair.valueLen) ∧
      Media.vectorContent system.store.sectorSize vector l = pairWritten system.store.capabilities
        (call.pair.layout system.store) (putHeader system.store call.poolId call.pair
          (call.pair.layout system.store) buf clock) call.pair.value call.pair.valueLen lba
        media l :=
    fun media vector member l covered =>
      pairIovec_content _ _ call.pair.value (by omega) lba media member covered
  refine ⟨probed, ?_, ?_, ?_⟩
  · rw [handedIovec_take memory _ enough]
    intro vector member l covered
    rcases List.mem_append.mp (List.mem_of_mem_take member) with trim | write
    · obtain ⟨lower, upper⟩ := trimCovers vector trim l covered
      rcases longer with none | ⟨_, sectors, takes, atMost⟩
      · have sector := system.store.capabilities.sector_positive
        have none : valueSectors system.store.capabilities trimLen = 0 := by
          rw [none, valueSectors]
          exact Nat.div_eq_of_lt (by omega)
        omega
      · exact ⟨sectors, takes, by omega, by omega⟩
    · obtain ⟨⟨lower, upper⟩, _⟩ := writeContent (fun _ => none) vector write l covered
      have own : system.Takes call lba (call.sectors system.store) :=
        Or.inl ⟨thread, by rw [← own]; exact ⟨valid, ⟨rfl, rfl⟩, rfl⟩⟩
      have atMost : sectorsWritten system.store.capabilities (call.pair.layout system.store)
          call.pair.valueLen ≤ call.sectors system.store := sectorsWritten_le_pairSectors valid
      exact ⟨_, own, lower, by omega⟩
  · intro media
    rcases @put_sector system.store call.poolId call.pair (call.pair.layout system.store) buf
      memory trims clock lba trimLen media positive bounded word longerOnly trimmed filled lba with
      same | ⟨trim, _⟩ | ⟨_, written⟩
    · exact Or.inl same
    · have behind := trim.1
      omega
    · right
      refine ⟨buf, clock, written.trans ?_⟩
      rw [pairWritten_first]
      rfl
  · rw [handedIovec_take memory _ enough]
    obtain ⟨first, rest, split, covers⟩ := @putIovec_head system.store call.poolId call.pair buf
      clock lba
    intro writes media
    rw [split] at writes
    have taken := head_mem_take
      (fun vector member => (kvProcessForTrim_starts bounded trimmed member).2) writes
    rw [← split] at taken
    obtain ⟨vector, member, covered, content⟩ :=
      @Media.applyBatch_covered _ _ _ media ⟨first, taken, covers⟩
    refine ⟨buf, clock, content.trans ?_⟩
    rcases List.mem_append.mp (List.mem_of_mem_take member) with trim | write
    · have behind := (trimCovers vector trim lba covered).1
      omega
    · rw [(writeContent media vector write lba covered).2, pairWritten_first]
      rfl

end PutSystem

/-- An address may be taken for a put: nothing is there, or a pair of its key that it
replaces. -/
def PutCall.MayTake (store : NvmKvStore) (call : PutCall) (state : StoreState ι) (lba : Nat) :
    Prop :=
  state.media lba = none ∨ call.Holds store state.media lba ∧
    (call.pair.replace = true ∨
      pairExpired store state.clock (storedHeader store state.media lba) = true)

/-- A put takes no address without waiting that it may not take by then. -/
def PutCall.TakesInTime (store : NvmKvStore) (call : PutCall) (state : StoreState ι) :
    StoreOp → Prop
  | .checkEntry lba => state.safeLbaList lba = none → call.MayTake store state lba
  | _ => True

/-- A batch covers no sector that a put with another key wrote. -/
def PutSystem.Spares (system : PutSystem ι) (thread : ι) (state : StoreState ι) : StoreOp → Prop
  | .batchAtomic iovec => ∀ writer written, (writer, written) ∈ state.log →
      ¬(system.calls writer).SameKey (system.calls thread) → ∀ vector ∈ written,
        vector.iovOpcode = .write → ∀ l, Media.Covers system.store.sectorSize vector l →
          ∀ other ∈ iovec, ¬Media.Covers system.store.sectorSize other l
  | _ => True

namespace PutSystem

variable (system : PutSystem ι)

/-- The lengths recorded for the keys of the puts take no more sectors than pairs of the
key. -/
def LengthsKnown (media : Media) : Prop :=
  ∀ thread, (system.calls thread).pair.Valid system.store →
    ∀ lba ∈ (system.calls thread).probes system.store,
    (system.calls thread).Holds system.store media lba →
      ∃ sectors, system.Takes (system.calls thread) lba sectors ∧
        valueSectors system.store.capabilities
          (storedHeader system.store media lba).valueLen ≤ sectors

/-- The batches handed over so far: each stayed within the sectors of its key at an address,
and one that wrote has its key there. -/
def Recorded (state : StoreState ι) : Prop :=
  ∀ thread iovec, (thread, iovec) ∈ state.log →
    (system.calls thread).pair.Valid system.store ∧
    ∃ lba ∈ (system.calls thread).probes system.store,
      (∀ vector ∈ iovec, ∀ l, Media.Covers system.store.sectorSize vector l →
        ∃ sectors, system.Takes (system.calls thread) lba sectors ∧
          lba ≤ l ∧ l < lba + sectors) ∧
      ((∃ vector ∈ iovec, vector.iovOpcode = .write) →
        (system.calls thread).Holds system.store state.media lba)

/-- What puts owe each other: an address that is held stays what it is, and what was handed
over stays recorded. -/
def discipline : Discipline StoreOp (StoreState ι) ι where
  invariant := fun state => system.LengthsKnown state.media ∧ system.Recorded state
  rely := fun thread before after =>
    (∀ lba, after.safeLbaList lba = some thread ↔ before.safeLbaList lba = some thread) ∧
      ((system.calls thread).pair.Valid system.store →
        ∀ lba ∈ (system.calls thread).probes system.store,
          before.safeLbaList lba = some thread → after.media lba = before.media lba) ∧
      ∀ entry ∈ before.log, entry ∈ after.log
  allowed := fun thread op state => (system.calls thread).TakesInTime system.store state op
  checked := fun thread op state => system.Spares thread state op

variable {system}

/-- The safe list is protected by what the puts owe each other. -/
theorem discipline_protects : ProtectsSafeList system.store system.discipline where
  kept := fun relied => relied.1 _
  still := fun _ _ => ⟨fun _ => Iff.rfl, fun _ _ _ _ => rfl, fun _ => id⟩
  reads := by
    intro thread op state reads
    cases op with
    | batchAtomic iovec => exact reads.elim
    | _ => trivial
  asks := fun _ _ _ => ⟨trivial, trivial⟩
  takes := by
    intro thread lba state invariant _ free
    exact ⟨invariant, fun other apart =>
      ⟨StoreState.hold_others free apart, fun _ _ _ _ => rfl, fun _ => id⟩⟩
  removes := by
    intro thread lba state invariant own
    exact ⟨trivial, invariant, fun other apart =>
      ⟨StoreState.release_others own apart, fun _ _ _ _ => rfl, fun _ => id⟩⟩

/-- What a put knows about the address that it holds: nothing is there, or its own key. -/
def Clear (system : PutSystem ι) (thread : ι) (lba : Nat) (state : StoreState ι) : Prop :=
  lba ∈ (system.calls thread).probes system.store ∧
    (state.media lba = none ∨ (system.calls thread).Holds system.store state.media lba)

/-- A put knows that its address is clear of the other pairs, and the length of what it replaces. -/
theorem knowsSlots {thread : ι} (valid : (system.calls thread).pair.Valid system.store) :
    KnowsSlots system.store system.discipline thread (system.calls thread).poolId
      (system.calls thread).pair (system.Clear thread)
      (system.Replaces (system.calls thread)) where
  stable := by
    rintro lba before after _ _ relied ⟨account, probed, clear⟩
    refine ⟨discipline_protects.stable_account before after ‹_› ‹_› relied account, probed, ?_⟩
    have same := relied.2.1 valid lba probed ((account.2 lba).mpr List.mem_cons_self)
    rw [same, PutCall.Holds, holds_congr (of_decide_eq_true valid.1).2 same]
    exact clear
  taken := by
    intro lba state probed _ allowed free
    exact ⟨probed, (allowed free).imp id And.left⟩
  found := fun probed _ _ held => ⟨probed, Or.inr held⟩
  kept := ⟨Nat.two_pow_pos 32, Or.inl rfl⟩
  replaced := by
    intro lba state probed invariant held
    unfold replacedLen
    split_ifs with longer
    · exact ⟨Region.word_lt _ _, Or.inr ⟨longer, invariant.1 thread valid lba probed held⟩⟩
    · exact ⟨Nat.two_pow_pos 32, Or.inl rfl⟩

section Handing

variable {thread : ι} {lba : Nat} {iovec : List NvmIovec} {state : StoreState ι}

/-- The state after a batch was handed over. -/
def afterBatch (system : PutSystem ι) (thread : ι) (iovec : List NvmIovec)
    (state : StoreState ι) : StoreState ι :=
  { state with
    media := state.media.applyBatch system.store.sectorSize iovec
    log := state.log ++ [(thread, iovec)] }

/-- A batch leaves the other addresses alone. -/
theorem HandsAt.elsewhere (hands : system.HandsAt (system.calls thread) lba iovec)
    (apart : system.Apart) (valid : (system.calls thread).pair.Valid system.store) {media : Media}
    {other : ι} (otherValid : (system.calls other).pair.Valid system.store) {address : Nat}
    (probed : address ∈ (system.calls other).probes system.store) (elsewhere : address ≠ lba) :
    media.applyBatch system.store.sectorSize iovec address = media address := by
  apply Media.applyBatch_frame
  intro vector member covered
  obtain ⟨sectors, takes, lower, upper⟩ := hands.covers vector member address covered
  have room := apart thread other valid otherValid lba hands.probed address probed (by omega)
    sectors takes
  omega

/-- The header that a put leaves is its own. -/
theorem holds_firstSector (valid : (system.calls thread).pair.Valid system.store) {other : ι}
    (otherValid : (system.calls other).pair.Valid system.store) {media : Media} {buf : Region}
    {clock : Nat} (header : media lba = some (firstSector system.store (system.calls thread).poolId
      (system.calls thread).pair ((system.calls thread).pair.layout system.store) buf clock)) :
    (system.calls other).Holds system.store media lba ↔
      (system.calls thread).SameKey (system.calls other) := by
  have short := (of_decide_eq_true valid.1).2
  have otherShort := (of_decide_eq_true otherValid.1).2
  rw [PutCall.Holds, holds_sector otherShort header,
    headerMatches_firstSector short otherShort, decide_eq_true_iff]
  rfl

/-- Two keys at one address are the same. -/
theorem sameKey_of_holds {other : ι} {media : Media}
    (first : (system.calls thread).Holds system.store media lba)
    (second : (system.calls other).Holds system.store media lba) :
    (system.calls thread).SameKey (system.calls other) :=
  headerMatches_unique first second

/-- Another key is not at an address that is held. -/
theorem Clear.sameKey (clear : system.Clear thread lba state) {other : ι}
    (valid : (system.calls other).pair.Valid system.store)
    (held : (system.calls other).Holds system.store state.media lba) :
    (system.calls thread).SameKey (system.calls other) := by
  rcases clear.2 with none | own
  · exact absurd none (mapped_of_holds (of_decide_eq_true valid.1).1 held)
  · exact sameKey_of_holds own held

/-- A value takes no more sectors than its pair. -/
theorem valueSectors_le_sectors (valid : (system.calls thread).pair.Valid system.store) :
    valueSectors system.store.capabilities (system.calls thread).pair.valueLen ≤
      (system.calls thread).sectors system.store := by
  obtain ⟨positive, bounded, _⟩ := of_decide_eq_true valid.2
  rw [PutCall.sectors, pairSectors_eq _ (of_decide_eq_true valid.1).2 positive bounded]
  have sector := system.store.capabilities.sector_positive
  split_ifs with fits
  · have inside : mKvHeaderSize + (system.calls thread).pair.key.length +
      (system.calls thread).pair.valueLen ≤ system.store.capabilities.nvmSectorSize := fits
    rw [valueSectors]
    exact Nat.le_of_lt_succ ((Nat.div_lt_iff_lt_mul sector).mpr (by omega))
  · omega

/-- The lengths stay known when a batch is handed over. -/
theorem HandsAt.lengthsKnown (hands : system.HandsAt (system.calls thread) lba iovec)
    (apart : system.Apart) (valid : (system.calls thread).pair.Valid system.store)
    (known : system.LengthsKnown state.media) :
    system.LengthsKnown (system.afterBatch thread iovec state).media := by
  intro other otherValid address probed held
  have short := (of_decide_eq_true otherValid.1).2
  have unchanged : (system.afterBatch thread iovec state).media address = state.media address →
      ∃ sectors, system.Takes (system.calls other) address sectors ∧
        valueSectors system.store.capabilities (storedHeader system.store
          (system.afterBatch thread iovec state).media address).valueLen ≤ sectors := by
    intro same
    rw [PutCall.Holds, holds_congr short same] at held
    rw [storedHeader_congr same]
    exact known other otherValid address probed held
  by_cases elsewhere : address = lba
  · subst elsewhere
    rcases hands.header state.media with same | ⟨buf, clock, header⟩
    · exact unchanged same
    · have sameKey := (holds_firstSector valid otherValid header).mp held
      refine ⟨(system.calls thread).sectors system.store, Or.inl ⟨thread, valid, sameKey, rfl⟩, ?_⟩
      obtain ⟨positive, bounded, _⟩ := of_decide_eq_true valid.2
      have length := (@readHeader_firstSector system.store (system.calls thread).poolId
        (system.calls thread).pair buf clock (of_decide_eq_true valid.1).2 bounded).1
      have reads := @storedHeader_sector system.store _ _ _ header
      change valueSectors _ (storedHeader system.store
        (state.media.applyBatch system.store.sectorSize iovec) address).valueLen ≤ _
      rw [reads, length]
      exact valueSectors_le_sectors valid
  · exact unchanged (hands.elsewhere apart valid otherValid probed elsewhere)

/-- The batches stay recorded, with the one that is handed over. -/
theorem HandsAt.recorded (hands : system.HandsAt (system.calls thread) lba iovec)
    (apart : system.Apart) (valid : (system.calls thread).pair.Valid system.store)
    (clear : system.Clear thread lba state) (recorded : system.Recorded state) :
    system.Recorded (system.afterBatch thread iovec state) := by
  intro writer written listed
  rcases List.mem_append.mp listed with earlier | last
  · obtain ⟨writerValid, address, probed, covers, holding⟩ := recorded writer written earlier
    refine ⟨writerValid, address, probed, covers, fun writes => ?_⟩
    have short := (of_decide_eq_true writerValid.1).2
    have held := holding writes
    have unchanged : (system.afterBatch thread iovec state).media address =
        state.media address → (system.calls writer).Holds system.store
          (system.afterBatch thread iovec state).media address := by
      intro same
      rw [PutCall.Holds, holds_congr short same]
      exact held
    by_cases elsewhere : address = lba
    · subst elsewhere
      rcases hands.header state.media with same | ⟨buf, clock, header⟩
      · exact unchanged same
      · exact (holds_firstSector valid writerValid header).mpr (clear.sameKey writerValid held)
    · exact unchanged (hands.elsewhere apart valid writerValid probed elsewhere)
  · obtain ⟨rfl, rfl⟩ := Prod.mk.inj (List.mem_singleton.mp last)
    refine ⟨valid, lba, hands.probed, hands.covers, fun writes => ?_⟩
    obtain ⟨buf, clock, header⟩ := hands.writes writes state.media
    exact (holds_firstSector valid valid header).mpr ⟨rfl, rfl⟩

/-- The batch spares what puts with other keys wrote. -/
theorem HandsAt.spares (hands : system.HandsAt (system.calls thread) lba iovec)
    (apart : system.Apart) (own : (system.calls thread).pair.Valid system.store)
    (clear : system.Clear thread lba state)
    (recorded : system.Recorded state) : system.Spares thread state (.batchAtomic iovec) := by
  intro writer written listed different vector member opcode l covered other among overlaps
  obtain ⟨valid, address, probed, covers, holding⟩ := recorded writer written listed
  obtain ⟨sectors, takes, lower, upper⟩ := covers vector member l covered
  obtain ⟨others, othersTake, othersLower, othersUpper⟩ := hands.covers other among l overlaps
  rcases Nat.lt_trichotomy address lba with below | rfl | above
  · have room := apart writer thread valid own address probed lba hands.probed below sectors takes
    omega
  · obtain ⟨poolId, key⟩ := clear.sameKey valid (holding ⟨vector, member, opcode⟩)
    exact different ⟨poolId.symm, key.symm⟩
  · have room :=
      apart thread writer own valid lba hands.probed address probed above others othersTake
    omega

end Handing

section Outlines

variable {thread : ι}

/-- A put has handed over a batch. -/
def Handed (thread : ι) (state : StoreState ι) : Prop := ∃ iovec, (thread, iovec) ∈ state.log

/-- What a put has handed over stays in the log. -/
theorem stable_handed : system.discipline.Stable thread (Handed thread) :=
  fun _ _ _ _ relied ⟨iovec, listed⟩ => ⟨iovec, relied.2.2 _ listed⟩

/-- A batch for an address that is held and clear may be handed over. -/
theorem outline_nvmWritev (apart : system.Apart)
    (valid : (system.calls thread).pair.Valid system.store) {lba : Nat} {iovec : List NvmIovec}
    (hands : system.HandsAt (system.calls thread) lba iovec) :
    system.discipline.Outline (answer system.store) thread (nvmWritev iovec)
      (fun state => Account thread [lba] state ∧ system.Clear thread lba state)
      fun retCode state => Account thread [lba] state ∧
        (retCode = .ok () → Handed thread state) := by
  have handed : system.discipline.Outline (answer system.store) thread
      (nvmBatchAtomicOperations iovec)
      (fun state => Account thread [lba] state ∧ system.Clear thread lba state)
      fun _ state => Account thread [lba] state ∧ Handed thread state := by
    refine Discipline.Outline.perform (knowsSlots valid).stable ?_
    rintro state ⟨known, recorded⟩ ⟨account, clear⟩
    refine ⟨hands.spares apart valid clear recorded, ?_⟩
    intro answered reached _ reply
    obtain ⟨_, rfl⟩ := Prod.mk.inj (Option.some.inj reply)
    have own := (account.2 lba).mpr List.mem_cons_self
    refine ⟨⟨hands.lengthsKnown apart valid known, hands.recorded apart valid clear recorded⟩,
      fun other different => ⟨fun _ => Iff.rfl, ?_, fun _ => List.mem_append_left _⟩, account,
      iovec, List.mem_append_right _ List.mem_cons_self⟩
    intro otherValid address probed held
    refine hands.elsewhere apart valid otherValid probed ?_
    rintro rfl
    exact different (Option.some.inj (held.symm.trans own))
  refine Discipline.Outline.bind handed fun done => ?_
  refine Discipline.Outline.ite (fun _ => ?_) fun _ => ?_
  · exact fun state _ holds => ⟨holds.1, fun _ => holds.2⟩
  · exact fun state _ holds => ⟨holds.1, nofun⟩

/-- A put that returns a length has handed over its batch. -/
theorem outline_kvPut (apart : system.Apart) (uncached : system.store.cacheSize = 0)
    (filled : (system.calls thread).pair.Filled system.store) :
    system.discipline.Outline (answer system.store) thread
      ((system.calls thread).program system.store) (Account thread []) fun result state =>
        Account thread [] state ∧ ∀ length, result = .ok length → Handed thread state := by
  refine discipline_protects.outline_kvPut_known knowsSlots ?_ uncached stable_handed
    fun _ _ => id
  intro layout unused placed context valid allocated held probed replaces
  obtain ⟨rfl, _⟩ := layout_of_alloc allocated
  refine discipline_protects.outline_kvPutWrite uncached held (knowsSlots valid).stable
    fun memory trims clock trimmed => ?_
  exact outline_nvmWritev apart valid
    (handsAt_handed valid filled rfl probed replaces trimmed)

end Outlines

/-- All puts are about to start, and nothing was handed over. -/
structure Starts (system : PutSystem ι) (state : StoreState ι) : Prop where
  media : state.media = system.media
  free : ∀ lba, state.safeLbaList lba = none
  silent : state.log = []

/-- The configuration in which all puts are about to start. -/
def start (system : PutSystem ι) (state : StoreState ι) : Config ι :=
  ⟨state, fun thread => (system.calls thread).program system.store⟩

section Sound

variable [DecidableEq ι] {state : StoreState ι} {config : Config ι}

/-- In every interleaving whose puts take addresses in time, a batch that is about to be
handed over spares what puts with other keys wrote, and a put that returned a length has
handed over a batch. -/
theorem sound (uncached : system.store.cacheSize = 0) (apart : system.Apart)
    (filled : ∀ thread, (system.calls thread).pair.Filled system.store)
    (starts : system.Starts state)
    (reached : Config.Reachable (answer system.store)
      (fun thread op state => (system.calls thread).TakesInTime system.store state op)
      (system.start state) config) :
    (∀ thread op next, config.threads thread = .call op next →
        system.Spares thread config.shared op) ∧
      ∀ thread length, config.threads thread = .done (.ok length) →
        Handed thread config.shared := by
  have initial : system.discipline.invariant (system.start state).shared := by
    refine ⟨?_, ?_⟩
    · intro thread _ lba _ held
      change (system.calls thread).Holds system.store state.media lba at held
      rw [starts.media] at held
      refine ⟨_, Or.inr ⟨held, rfl⟩, ?_⟩
      change valueSectors _ (storedHeader system.store state.media lba).valueLen ≤ _
      rw [starts.media]
    · intro thread iovec listed
      change (thread, iovec) ∈ state.log at listed
      rw [starts.silent] at listed
      exact absurd listed List.not_mem_nil
  have placed : ∀ thread, Discipline.Placed system.discipline (answer system.store)
      (fun thread result state => Account thread [] state ∧
        ∀ length, result = .ok length → Handed thread state) (system.start state) thread := by
    intro thread
    refine ⟨Account thread [], ⟨List.nodup_nil, ?_⟩, outline_kvPut apart uncached (filled thread)⟩
    intro lba
    change state.safeLbaList lba = some thread ↔ _
    rw [starts.free]
    simp
  have final : ∀ thread (result : Except NvmErrorCode Nat), system.discipline.Stable thread
      fun state => Account thread [] state ∧
        ∀ length, result = .ok length → Handed thread state :=
    fun thread result before after first second relied holds =>
      ⟨discipline_protects.stable_account before after first second relied holds.1,
        fun length same => stable_handed before after first second relied (holds.2 length same)⟩
  refine ⟨?_, ?_⟩
  · intro thread op next pending
    exact Discipline.sound_checked initial placed final reached pending
  · intro thread length returned
    exact (Discipline.sound_returned initial placed final reached returned).2 length rfl

end Sound

end PutSystem

end Nvmkv
