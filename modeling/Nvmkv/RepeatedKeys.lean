import Nvmkv.BatchNewKeys
import Nvmkv.PairExtents
import Nvmkv.ReplaceRoundTrip

/-!
# A key that a batch names several times

All pairs of one key go to one address, and the vectors of a batch take effect one after the
other. The header that is left is that of the last pair, but a pair writes only the sectors
that it has itself: the trims of a batch follow what was mapped before it, which for these
keys is nothing. So the value sectors of a longer pair that came earlier stay behind those of
the last one.

A value that does not fit behind its key and comes from an unaligned buffer has no value
sectors of its own. Its header announces them nevertheless, and what is read there is what
an earlier pair of the key left.
-/

namespace Nvmkv

variable {ι : Type} {store : NvmKvStore} {poolId : UInt32}

/-- Whether the value of a pair is handed over from the caller's buffer. -/
def NvmKvIovec.FromBuffer (store : NvmKvStore) (pair : NvmKvIovec) : Prop :=
  ¬fitsSector store.capabilities pair.key.length pair.valueLen ∧
    pair.value.address % store.sectorSize = 0

/-- Whether a value is taken from the buffer can be computed. -/
instance (pair : NvmKvIovec) : Decidable (pair.FromBuffer store) :=
  inferInstanceAs (Decidable (¬_ ∧ _))

/-- What a pair writes in a sector of its value. -/
def NvmKvIovec.valueSector (store : NvmKvStore) (pair : NvmKvIovec) (i : Nat) : Option Region :=
  if pair.FromBuffer store ∧ i < valueSectors store.capabilities pair.valueLen then
    some (pair.value.bytes.drop (i * store.sectorSize))
  else none

/-- What the pairs of a key leave in a value sector. -/
def leftSector (store : NvmKvStore) (kvIov : List NvmKvIovec) (key : List UInt8) (i : Nat) :
    Option Region :=
  lastWrite (fun pair i => if pair.key = key then pair.valueSector store i else none) kvIov i

section Contents

variable {pair : NvmKvIovec} {laid : LaidPair} {clock i l : Nat}

/-- A layout uses the caller's buffer for a long value that is aligned. -/
theorem userBufferUsage_iff (positive : 0 < pair.valueLen) :
    (pair.layout store).userBufferUsage = true ↔ pair.FromBuffer store := by
  unfold NvmKvIovec.FromBuffer NvmKvStore.sectorSize
  by_cases fits : fitsSector store.capabilities pair.key.length pair.valueLen
  · simp [NvmKvIovec.layout, writeLayout_fits pair.value fits, fits]
  · by_cases aligned : pair.value.address % store.capabilities.nvmSectorSize = 0
    · simp [NvmKvIovec.layout, writeLayout_aligned fits aligned, fits, aligned]
    · simp [NvmKvIovec.layout, writeLayout_unaligned positive fits aligned, aligned]

/-- A pair writes its header first. -/
theorem LaidPair.content_first :
    laid.content store poolId clock laid.lba =
      some (some (firstSector store poolId laid.pair (laid.pair.layout store) laid.buf clock)) := by
  have some : 0 < laid.sectors store := by
    unfold LaidPair.sectors sectorsWritten
    split <;> omega
  rw [LaidPair.content, if_pos ⟨le_rfl, by omega⟩, pairWritten_first]
  rfl

/-- Behind it are the sectors of its value, if it has some. -/
theorem LaidPair.content_value (positive : 0 < laid.pair.valueLen) :
    laid.content store poolId clock (laid.lba + 1 + i) =
      (laid.pair.valueSector store i).map some := by
  have user := @userBufferUsage_iff store laid.pair positive
  unfold LaidPair.content NvmKvIovec.valueSector LaidPair.sectors sectorsWritten
  by_cases buffer : laid.pair.FromBuffer store
  · simp only [user.mpr buffer, if_true, buffer, true_and]
    by_cases inside : i < valueSectors store.capabilities laid.pair.valueLen
    · rw [if_pos ⟨by omega, by omega⟩, if_pos inside, pairWritten, if_pos (user.mpr buffer),
        Media.write_inside ⟨by omega, by omega⟩, Nat.add_sub_cancel_left]
      rfl
    · rw [if_neg (by omega), if_neg inside]
      rfl
  · have copied : (laid.pair.layout store).userBufferUsage = false :=
      Bool.eq_false_iff.mpr fun uses => buffer (user.mp uses)
    simp only [copied, Bool.false_eq_true, if_false, buffer, false_and]
    rw [if_neg (by omega)]
    rfl

end Contents

namespace BatchStored

variable {before after : StoreState ι} {laids : List LaidPair} {laid other : LaidPair} {i l : Nat}

/-- The lengths that were accepted for a pair. -/
theorem lengths (stored : BatchStored store poolId before after laids) (member : laid ∈ laids) :
    (0 < laid.pair.key.length ∧ laid.pair.key.length ≤ nvmKvMaxKeySize) ∧
      0 < laid.pair.valueLen ∧ laid.pair.valueLen ≤ nvmKvMaxValueSize := by
  obtain ⟨key, value⟩ := stored.valid laid member
  exact ⟨of_decide_eq_true key, (of_decide_eq_true value).1, (of_decide_eq_true value).2.1⟩

/-- The address of a pair of the batch is one of its key. -/
theorem probed (stored : BatchStored store poolId before after laids) (member : laid ∈ laids) :
    laid.lba ∈ store.probes poolId laid.pair.key := by
  obtain ⟨earlier, later, split, _⟩ := stored.reached laid member
  rw [split]
  exact List.mem_append_right _ List.mem_cons_self

/-- A sector is as the last pair left it that has the sector. -/
theorem sector (stored : BatchStored store poolId before after laids) :
    after.media l =
      (lastWrite (LaidPair.content store poolId before.clock) laids l).getD (before.media l) := by
  rw [stored.written]
  exact LaidPair.applyBatch_laid (fun laid member => (stored.lengths member).2.2) _ _

/-- A pair writes in the window of its own address only: other windows of probe addresses
are a slot away. -/
theorem own_window (stored : BatchStored store poolId before after laids) (member : laid ∈ laids)
    {key : List UInt8} {lba : Nat} (nonempty : key ≠ []) (probed : lba ∈ store.probes poolId key)
    (inside : lba ≤ l ∧ l < lba + 2 ^ store.valueBits)
    (writes : laid.content store poolId before.clock l ≠ none) : laid.lba = lba := by
  have room := @sectorsWritten_le store (laid.pair.layout store) _ (stored.lengths member).2.2
  have own : laid.lba ≤ l ∧ l < laid.lba + laid.sectors store := by
    by_contra outside
    exact writes (if_neg outside)
  have some := List.length_pos_iff.mp (stored.lengths member).1.1
  have size : laid.sectors store ≤ 2 ^ store.valueBits := room
  rcases Nat.le_total laid.lba lba with near | near
  · exact probes_apart some nonempty (stored.probed member) probed near (by omega)
  · exact (probes_apart nonempty some probed (stored.probed member) near (by omega)).symm

section Last

variable {left right : List LaidPair}

/-- The header that is left is that of the last pair of its key. -/
theorem first (stored : BatchStored store poolId before after (left ++ laid :: right))
    (last : ∀ other ∈ right, other.pair.key ≠ laid.pair.key) :
    after.media laid.lba = some (firstSector store poolId laid.pair (laid.pair.layout store)
      laid.buf before.clock) := by
  have member : laid ∈ left ++ laid :: right := List.mem_append_right _ List.mem_cons_self
  have silent : ∀ other ∈ right,
      other.content store poolId before.clock laid.lba = none := by
    intro other listed
    by_contra writes
    have among : other ∈ left ++ laid :: right :=
      List.mem_append_right _ (List.mem_cons_of_mem _ listed)
    have same := stored.own_window among
      (List.length_pos_iff.mp (stored.lengths member).1.1) (stored.probed member)
      ⟨le_rfl, Nat.lt_add_of_pos_right (Nat.two_pow_pos _)⟩ writes
    exact last other listed ((stored.keyed other among laid member).mpr same)
  rw [stored.sector, lastWrite_of_silent LaidPair.content_first silent, Option.getD_some]

end Last

/-- The value sectors behind an address are those that the pairs of its key left. -/
theorem value_sector (stored : BatchStored store poolId before after laids) (member : laid ∈ laids)
    (inside : 1 + i < 2 ^ store.valueBits) :
    after.media (laid.lba + 1 + i) =
      leftSector store (laids.map LaidPair.pair) laid.pair.key i := by
  have nonempty := List.length_pos_iff.mp (stored.lengths member).1.1
  have free : before.media (laid.lba + 1 + i) = none := by
    rw [Nat.add_assoc]
    exact windowFree_iff.mp (stored.free laid member) _ inside
  have narrowed : lastWrite (LaidPair.content store poolId before.clock) laids
      (laid.lba + 1 + i) =
      (leftSector store (laids.map LaidPair.pair) laid.pair.key i).map some := by
    rw [leftSector, ← lastWrite_image]
    apply lastWrite_map
    intro other listed
    by_cases same : other.pair.key = laid.pair.key
    · rw [if_pos same, ← (stored.keyed other listed laid member).mp same]
      exact LaidPair.content_value (stored.lengths listed).2.1
    · rw [if_neg same, Option.map_none]
      by_contra writes
      refine same ((stored.keyed other listed laid member).mpr ?_)
      exact stored.own_window listed nonempty (stored.probed member) ⟨by omega, by omega⟩ writes
  rw [stored.sector, narrowed, free]
  cases leftSector store (laids.map LaidPair.pair) laid.pair.key i <;> rfl

/-- No other address holds the key of a pair. -/
theorem unheld_elsewhere (stored : BatchStored store poolId before after laids)
    (member : laid ∈ laids) {lba : Nat} (probed : lba ∈ store.probes poolId laid.pair.key)
    (absent : holds store before.media poolId laid.pair.key lba = false)
    (elsewhere : lba ≠ laid.lba) : holds store after.media poolId laid.pair.key lba = false := by
  obtain ⟨⟨some, short⟩, _⟩ := stored.lengths member
  have nonempty := List.length_pos_iff.mp some
  cases writes : lastWrite (LaidPair.content store poolId before.clock) laids lba with
  | none =>
    have unchanged : after.media lba = before.media lba := by
      rw [stored.sector, writes, Option.getD_none]
    rwa [holds_congr short unchanged]
  | some content =>
    obtain ⟨other, listed, given⟩ := lastWrite_mem writes
    have here : other.lba = lba := stored.own_window listed nonempty probed
      ⟨le_rfl, Nat.lt_add_of_pos_right (Nat.two_pow_pos _)⟩
      (by rw [given]; exact Option.some_ne_none content)
    subst here
    obtain rfl := Option.some.inj (LaidPair.content_first.symm.trans given)
    have sector : after.media other.lba = Option.some (firstSector store poolId other.pair
        (other.pair.layout store) other.buf before.clock) := by
      rw [stored.sector, writes, Option.getD_some]
    rw [holds_sector short sector, headerMatches_firstSector (stored.lengths listed).1.2 short,
      decide_eq_false]
    rintro ⟨_, same⟩
    exact elsewhere ((stored.keyed other listed laid member).mp same)

end BatchStored

/-- The media has exactly a pair at one of its addresses: its header and its value, and
nothing else is mapped in the window there. Every reading of the key that has room for the
value delivers it, unless an exact one was cut short on its way. -/
def ExactlyStored (store : NvmKvStore) (state : StoreState ι) (poolId : UInt32)
    (pair : NvmKvIovec) : Prop :=
  ∃ earlier lba later, store.probes poolId pair.key = earlier ++ lba :: later ∧
    (∃ buf, state.media lba =
      some (firstSector store poolId pair (pair.layout store) buf state.clock)) ∧
    (∀ i, i < 2 ^ store.valueBits → ((state.media (lba + i)).isSome ↔
      i < pairSectors store.capabilities pair.key.length pair.value pair.valueLen)) ∧
    (∀ i, i < pair.valueLen → state.media.read store.sectorSize lba
      ((pair.layout store).valueOffset + i) = pair.value.bytes i) ∧
    ∀ (reader : ι) (readExact : Bool),
      (readExact = true → fitsSector store.capabilities pair.key.length pair.valueLen ∨
        RunsReach store state.media pair.valueLen earlier) →
      Delivers store reader state poolId pair readExact

/-- A pair is the last one of its key in a batch. -/
def LastOfKey (kvIov : List NvmKvIovec) (pair : NvmKvIovec) : Prop :=
  ∃ earlier later, kvIov = earlier ++ pair :: later ∧ ∀ other ∈ later, other.key ≠ pair.key

/-- The last pair of a key outlasts the others: none of them has value sectors that it does
not write over. A long value from an unaligned buffer has no sectors of its own, so that its
bytes are those left by others. -/
structure Outlasts (store : NvmKvStore) (clock : Nat) (kvIov : List NvmKvIovec)
    (pair : NvmKvIovec) : Prop where
  longest : ∀ other ∈ kvIov, other.key = pair.key → other.FromBuffer store →
    ¬fitsSector store.capabilities pair.key.length pair.valueLen ∧
      valueSectors store.capabilities other.valueLen ≤
        valueSectors store.capabilities pair.valueLen
  laidOut : ¬fitsSector store.capabilities pair.key.length pair.valueLen →
    pair.value.address % store.sectorSize ≠ 0 → ∀ i, i < pair.valueLen →
      ∃ sector, leftSector store kvIov pair.key (i / store.sectorSize) = some sector ∧
        sector (i % store.sectorSize) = pair.value.bytes i
  lasting : Gettable store pair.valueLen → expiresAtOnce store pair clock = false

section Occurrences

variable {kvIov : List NvmKvIovec} {pair : NvmKvIovec} {key : List UInt8} {clock i : Nat}

/-- A value sector is left when a pair of the key has one at its place. -/
theorem leftSector_isSome_iff :
    (leftSector store kvIov key i).isSome ↔ ∃ other ∈ kvIov, other.key = key ∧
      other.FromBuffer store ∧ i < valueSectors store.capabilities other.valueLen := by
  rw [leftSector, lastWrite_isSome_iff]
  refine exists_congr fun other => and_congr_right fun _ => ?_
  unfold NvmKvIovec.valueSector
  split_ifs with same sectors
  · simp [same, sectors]
  · simp only [Option.isSome_none, Bool.false_eq_true, same, true_and, false_iff]
    exact sectors
  · simp [same]

/-- The last pair of a key leaves its own value sectors, if it has some. -/
theorem leftSector_own (last : LastOfKey kvIov pair) (buffer : pair.FromBuffer store)
    (inside : i < valueSectors store.capabilities pair.valueLen) :
    leftSector store kvIov pair.key i =
      some (pair.value.bytes.drop (i * store.sectorSize)) := by
  obtain ⟨earlier, later, rfl, others⟩ := last
  apply lastWrite_of_silent
  · rw [if_pos rfl, NvmKvIovec.valueSector, if_pos ⟨buffer, inside⟩]
  · exact fun other member => if_neg (others other member)

/-- The sector of a byte of a value is one of the value's. -/
theorem sector_of_byte (inside : i < pair.valueLen) :
    i / store.sectorSize < valueSectors store.capabilities pair.valueLen := by
  have covers : pair.valueLen ≤
      valueSectors store.capabilities pair.valueLen * store.sectorSize :=
    (valueSectors_covers store.capabilities pair.valueLen).1
  rw [Nat.div_lt_iff_lt_mul store.sector_positive]
  omega

/-- Behind a pair that outlasts the others are the bytes of its long value. -/
theorem Outlasts.left (outlasts : Outlasts store clock kvIov pair) (last : LastOfKey kvIov pair)
    (long : ¬fitsSector store.capabilities pair.key.length pair.valueLen)
    (inside : i < pair.valueLen) :
    ∃ sector, leftSector store kvIov pair.key (i / store.sectorSize) = some sector ∧
      sector (i % store.sectorSize) = pair.value.bytes i := by
  by_cases aligned : pair.value.address % store.sectorSize = 0
  · refine ⟨_, leftSector_own last ⟨long, aligned⟩ (sector_of_byte inside), ?_⟩
    rw [Region.drop]
    congr 1
    rw [Nat.mul_comm]
    exact Nat.div_add_mod i store.sectorSize
  · exact outlasts.laidOut long aligned i inside

/-- A long value starts behind the sector of its header. -/
theorem valueOffset_long (positive : 0 < pair.valueLen)
    (long : ¬fitsSector store.capabilities pair.key.length pair.valueLen) :
    (pair.layout store).valueOffset = store.sectorSize := by
  by_cases aligned : pair.value.address % store.capabilities.nvmSectorSize = 0
  · rw [NvmKvIovec.layout, writeLayout_aligned long aligned]
    rfl
  · rw [NvmKvIovec.layout, writeLayout_unaligned positive long aligned]
    rfl

end Occurrences

section Pair

variable {media : Media} {pair : NvmKvIovec} {buf : Region} {clock lba : Nat}

/-- The header, the mapped sectors and the bytes of a pair make up its value. -/
theorem storedValue_of_sectors (short : pair.key.length ≤ nvmKvMaxKeySize)
    (positive : 0 < pair.valueLen) (bounded : pair.valueLen ≤ nvmKvMaxValueSize)
    (header : media lba =
      some (firstSector store poolId pair (pair.layout store) buf clock))
    (mapped : ¬fitsSector store.capabilities pair.key.length pair.valueLen →
      ∀ i, i < 1 + valueSectors store.capabilities pair.valueLen → (media (lba + i)).isSome)
    (value : ∀ i, i < pair.valueLen → media.read store.sectorSize lba
      ((pair.layout store).valueOffset + i) = pair.value.bytes i) :
    StoredValue store media poolId pair.key lba pair.valueLen pair.value.bytes := by
  obtain ⟨length, offset, _⟩ :=
    @readHeader_firstSector store poolId pair buf clock short bounded
  have reads := @storedHeader_sector store _ _ _ header
  refine ⟨?_, by rw [reads, length], ?_, ?_⟩
  · rw [holds_sector short header, headerMatches_firstSector short short]
    exact decide_eq_true ⟨rfl, rfl⟩
  · rw [reads, offset]
    by_cases fits : fitsSector store.capabilities pair.key.length pair.valueLen
    · left
      have sector : mKvHeaderSize + pair.key.length + pair.valueLen ≤ store.sectorSize := fits
      rw [writeLayout_fits pair.value fits]
      exact ⟨by dsimp only; omega, sector⟩
    · exact Or.inr ⟨valueOffset_long positive fits, mapped fits⟩
  · rw [reads, offset]
    exact value

/-- A value that fits behind its key is in the sector of the header. -/
theorem read_fits (short : pair.key.length ≤ nvmKvMaxKeySize) (positive : 0 < pair.valueLen)
    (bounded : pair.valueLen ≤ nvmKvMaxValueSize)
    (fits : fitsSector store.capabilities pair.key.length pair.valueLen)
    (header : media lba =
      some (firstSector store poolId pair (pair.layout store) buf clock)) {i : Nat}
    (inside : i < pair.valueLen) :
    media.read store.sectorSize lba ((pair.layout store).valueOffset + i) =
      pair.value.bytes i := by
  have complete : CompletePair store poolId pair buf clock lba media := by
    intro l lower upper
    rw [writeLayout_fits pair.value fits] at upper
    obtain rfl : l = lba := Nat.le_antisymm (Nat.lt_succ_iff.mp upper) lower
    rw [pairWritten_first]
    exact header
  have stored := complete.stored short positive bounded (Or.inl fits)
  rw [← stored.value i inside, storedHeader_sector header,
    (@readHeader_firstSector store poolId pair buf clock short bounded).2.1]

end Pair

section LastPair

variable {before after : StoreState ι} {left right : List LaidPair} {laid : LaidPair}

/-- The laid pairs of a batch end with the last one of its key. -/
theorem lastOfKey_laid (last : ∀ other ∈ right, other.pair.key ≠ laid.pair.key) :
    LastOfKey ((left ++ laid :: right).map LaidPair.pair) laid.pair := by
  refine ⟨left.map LaidPair.pair, right.map LaidPair.pair, by simp, ?_⟩
  intro other member
  obtain ⟨later, listed, rfl⟩ := List.mem_map.mp member
  exact last later listed

/-- So its key is accepted by the lookups behind the batch. -/
theorem BatchStored.accepted {laids : List LaidPair}
    (stored : BatchStored store poolId before after laids) (member : laid ∈ laids) :
    keyAccepted after poolId laid.pair.key = true := by
  rw [keyAccepted, decide_eq_true stored.pool, Bool.true_and]
  exact (stored.valid laid member).1

/-- A last pair that is exactly stored outlasts the others. A sector of its value is mapped when a
pair of the key has one there. -/
theorem BatchStored.outlasts
    (stored : BatchStored store poolId before after (left ++ laid :: right))
    (reader : ι) (absent : ∀ lba ∈ store.probes poolId laid.pair.key,
      holds store before.media poolId laid.pair.key lba = false)
    (exactly : ExactlyStored store after poolId laid.pair) :
    Outlasts store before.clock ((left ++ laid :: right).map LaidPair.pair) laid.pair := by
  have member : laid ∈ left ++ laid :: right := List.mem_append_right _ List.mem_cons_self
  obtain ⟨⟨_, short⟩, positive, bounded⟩ := stored.lengths member
  obtain ⟨earlier, lba, later, split, ⟨buf, header⟩, extent, value, delivered⟩ := exactly
  have held : holds store after.media poolId laid.pair.key lba = true := by
    rw [holds_sector short header, headerMatches_firstSector short short]
    exact decide_eq_true ⟨rfl, rfl⟩
  obtain rfl : lba = laid.lba := by
    by_contra elsewhere
    have probed : lba ∈ store.probes poolId laid.pair.key := by
      rw [split]
      exact List.mem_append_right _ List.mem_cons_self
    rw [stored.unheld_elsewhere member probed (absent lba probed) elsewhere] at held
    cases held
  have sectors := @pairSectors_eq store.capabilities _ _ laid.pair.value short positive bounded
  have mapped : ∀ {i}, 1 + i < 2 ^ store.valueBits →
      ((leftSector store ((left ++ laid :: right).map LaidPair.pair) laid.pair.key i).isSome ↔
        1 + i < pairSectors store.capabilities laid.pair.key.length laid.pair.value
          laid.pair.valueLen) := by
    intro i inside
    rw [← stored.value_sector member inside, Nat.add_assoc]
    exact extent (1 + i) inside
  refine ⟨?_, ?_, ?_⟩
  · intro other among same buffer
    obtain ⟨writer, listed, rfl⟩ := List.mem_map.mp among
    obtain ⟨_, some, small⟩ := stored.lengths listed
    have room := @sectorsWritten_le store ⟨true, 0, 0, 0⟩ _ small
    have covers : writer.pair.valueLen ≤
        valueSectors store.capabilities writer.pair.valueLen * store.sectorSize :=
      (valueSectors_covers store.capabilities writer.pair.valueLen).1
    have sectorsOf : sectorsWritten store.capabilities ⟨true, 0, 0, 0⟩ writer.pair.valueLen =
        1 + valueSectors store.capabilities writer.pair.valueLen := rfl
    cases count : valueSectors store.capabilities writer.pair.valueLen with
    | zero =>
      rw [count, Nat.zero_mul] at covers
      omega
    | succ i =>
      have within := (mapped (i := i) (by omega)).mp
        (leftSector_isSome_iff.mpr ⟨writer.pair, among, same, buffer, by omega⟩)
      rw [sectors] at within
      split_ifs at within with fits
      · omega
      · exact ⟨fits, by omega⟩
  · intro long unaligned i inside
    have place := @sector_of_byte store laid.pair i inside
    have room := @sectorsWritten_le store ⟨true, 0, 0, 0⟩ _ bounded
    have sectorsOf : sectorsWritten store.capabilities ⟨true, 0, 0, 0⟩ laid.pair.valueLen =
        1 + valueSectors store.capabilities laid.pair.valueLen := rfl
    obtain ⟨number, index⟩ : ∃ number, i / store.sectorSize = number := ⟨_, rfl⟩
    rw [index] at place ⊢
    obtain ⟨sector, content⟩ := Option.isSome_iff_exists.mp
      ((mapped (i := number) (by omega)).mpr (by rw [sectors, if_neg long]; omega))
    refine ⟨sector, content, ?_⟩
    have behind := (stored.value_sector member (by omega)).trans content
    rw [← index] at behind
    rw [← value i inside, valueOffset_long positive long, read_behind behind]
  · intro gettable
    obtain ⟨first, rest, parts, others⟩ := stored.reached laid member
    have unheld : ∀ passed ∈ first,
        holds store after.media poolId laid.pair.key passed = false := by
      intro passed among
      have probed : passed ∈ store.probes poolId laid.pair.key := by
        rw [parts]
        exact List.mem_append_left _ among
      exact stored.unheld_elsewhere member probed (absent passed probed) (others passed among)
    obtain ⟨got, answered, _⟩ := (delivered reader false fun exact => nomatch exact).answered
      (stored.accepted member) positive gettable
    obtain ⟨unexpired, _⟩ := getAnswer_value parts unheld held answered
    rw [storedHeader_sector header, pairExpired,
      (@readHeader_firstSector store poolId laid.pair buf after.clock short bounded).2.2,
      stored.clock] at unexpired
    exact unexpired

/-- Where a last pair outlasts the others, its sectors are mapped and no others of its slot. -/
theorem BatchStored.extent (stored : BatchStored store poolId before after (left ++ laid :: right))
    (last : ∀ other ∈ right, other.pair.key ≠ laid.pair.key)
    (outlasts : Outlasts store before.clock ((left ++ laid :: right).map LaidPair.pair)
      laid.pair) {i : Nat} (inside : i < 2 ^ store.valueBits) :
    (after.media (laid.lba + i)).isSome ↔
      i < pairSectors store.capabilities laid.pair.key.length laid.pair.value
        laid.pair.valueLen := by
  have member : laid ∈ left ++ laid :: right := List.mem_append_right _ List.mem_cons_self
  obtain ⟨⟨_, short⟩, positive, bounded⟩ := stored.lengths member
  have sectors := @pairSectors_eq store.capabilities _ _ laid.pair.value short positive bounded
  have ofKey := @lastOfKey_laid left right laid last
  cases i with
  | zero =>
    rw [Nat.add_zero, stored.first last, sectors]
    simp only [Option.isSome_some, true_iff]
    split_ifs <;> omega
  | succ i =>
    rw [Nat.add_comm i 1] at inside ⊢
    rw [← Nat.add_assoc, stored.value_sector member inside, sectors]
    constructor
    · intro some
      obtain ⟨other, among, same, buffer, place⟩ := leftSector_isSome_iff.mp some
      obtain ⟨long, fewer⟩ := outlasts.longest other among same buffer
      rw [if_neg long]
      omega
    · intro place
      split_ifs at place with fits
      · omega
      · have covers : valueSectors store.capabilities laid.pair.valueLen * store.sectorSize <
            laid.pair.valueLen + store.sectorSize :=
          (valueSectors_covers store.capabilities laid.pair.valueLen).2
        have sector : (i + 1) * store.sectorSize ≤
            valueSectors store.capabilities laid.pair.valueLen * store.sectorSize :=
          Nat.mul_le_mul_right _ (by omega)
        rw [Nat.add_mul, Nat.one_mul] at sector
        obtain ⟨content, left, _⟩ := outlasts.left (i := i * store.sectorSize) ofKey fits
          (by omega)
        rw [Nat.mul_div_cancel _ store.sector_positive] at left
        rw [left]
        rfl

/-- There its value is on the device, behind the header or in the sectors behind that one. -/
theorem BatchStored.value_read
    (stored : BatchStored store poolId before after (left ++ laid :: right))
    (last : ∀ other ∈ right, other.pair.key ≠ laid.pair.key)
    (outlasts : Outlasts store before.clock ((left ++ laid :: right).map LaidPair.pair)
      laid.pair) {i : Nat} (inside : i < laid.pair.valueLen) :
    after.media.read store.sectorSize laid.lba ((laid.pair.layout store).valueOffset + i) =
      laid.pair.value.bytes i := by
  have member : laid ∈ left ++ laid :: right := List.mem_append_right _ List.mem_cons_self
  obtain ⟨⟨_, short⟩, positive, bounded⟩ := stored.lengths member
  have room := @sectorsWritten_le store ⟨true, 0, 0, 0⟩ _ bounded
  have sectorsOf : sectorsWritten store.capabilities ⟨true, 0, 0, 0⟩ laid.pair.valueLen =
      1 + valueSectors store.capabilities laid.pair.valueLen := rfl
  by_cases fits : fitsSector store.capabilities laid.pair.key.length laid.pair.valueLen
  · exact read_fits short positive bounded fits (stored.first last) inside
  · obtain ⟨content, left, same⟩ := outlasts.left (@lastOfKey_laid left right laid last) fits inside
    have place := @sector_of_byte store laid.pair i inside
    have behind := (stored.value_sector member (by omega)).trans left
    rw [valueOffset_long positive fits, read_behind behind]
    exact same

/-- A last pair that outlasts the others is exactly stored. -/
theorem BatchStored.exactly (stored : BatchStored store poolId before after (left ++ laid :: right))
    (last : ∀ other ∈ right, other.pair.key ≠ laid.pair.key)
    (absent : ∀ lba ∈ store.probes poolId laid.pair.key,
      holds store before.media poolId laid.pair.key lba = false)
    (outlasts : Outlasts store before.clock ((left ++ laid :: right).map LaidPair.pair)
      laid.pair) :
    ExactlyStored store after poolId laid.pair := by
  have member : laid ∈ left ++ laid :: right := List.mem_append_right _ List.mem_cons_self
  obtain ⟨⟨_, short⟩, positive, bounded⟩ := stored.lengths member
  obtain ⟨earlier, later, split, others⟩ := stored.reached laid member
  have header := stored.first last
  have sectors := @pairSectors_eq store.capabilities _ _ laid.pair.value short positive bounded
  have room := @sectorsWritten_le store ⟨true, 0, 0, 0⟩ _ bounded
  have sectorsOf : sectorsWritten store.capabilities ⟨true, 0, 0, 0⟩ laid.pair.valueLen =
      1 + valueSectors store.capabilities laid.pair.valueLen := rfl
  have laidOut := storedValue_of_sectors short positive bounded header
    (fun long i inside => (stored.extent last outlasts (by omega)).mpr
      (by rw [sectors, if_neg long]; exact inside))
    (fun i inside => stored.value_read last outlasts inside)
  rw [← stored.clock] at header
  refine ⟨earlier, laid.lba, later, split, ⟨laid.buf, header⟩,
    fun i inside => stored.extent last outlasts inside,
    fun i inside => stored.value_read last outlasts inside, ?_⟩
  intro reader readExact reaches given valueLen readBuf valid enough readable
  have unexpired : pairExpired store after.clock (storedHeader store after.media laid.lba) =
      false := by
    have lasting := outlasts.lasting (gettable_of_accepted valid enough readable)
    rw [storedHeader_sector header, pairExpired,
      (@readHeader_firstSector store poolId laid.pair laid.buf after.clock short bounded).2.2,
      stored.clock]
    exact lasting
  have unheld : ∀ passed ∈ earlier,
      holds store after.media poolId laid.pair.key passed = false := by
    intro passed among
    have probed : passed ∈ store.probes poolId laid.pair.key := by
      rw [split]
      exact List.mem_append_left _ among
    exact stored.unheld_elsewhere member probed (absent passed probed) (others passed among)
  obtain ⟨got, ran, length, bytes, _⟩ := run_kvGet_stored reader (stored.accepted member) positive
    bounded laidOut split unheld unexpired valid readable enough (by
      intro exact
      refine (reaches exact).imp (fun fits => ?_) id
      have sector : mKvHeaderSize + laid.pair.key.length + laid.pair.valueLen ≤
          store.sectorSize := fits
      rw [storedHeader_sector header, (@readHeader_firstSector store poolId laid.pair laid.buf
        after.clock short bounded).2.1, writeLayout_fits laid.pair.value fits]
      dsimp only
      omega)
  exact ⟨got, _, ran, length, bytes⟩

end LastPair

/-- The last pair of a key was laid as the last one of its key. -/
theorem laid_of_last {laids : List LaidPair} {pair : NvmKvIovec}
    (last : LastOfKey (laids.map LaidPair.pair) pair) :
    ∃ left laid right, laids = left ++ laid :: right ∧ laid.pair = pair ∧
      ∀ other ∈ right, other.pair.key ≠ laid.pair.key := by
  obtain ⟨earlier, later, split, others⟩ := last
  obtain ⟨left, rest, rfl, rfl, tail⟩ := List.map_eq_append_iff.mp split
  obtain ⟨laid, right, rfl, rfl, rfl⟩ := List.map_eq_cons_iff.mp tail
  exact ⟨left, laid, right, rfl, rfl, fun other member =>
    others other.pair (List.mem_map_of_mem member)⟩

/-- A batch put of keys that the store does not have, and that announces as many vectors as
it fills, leaves exactly the last pair of every key just when the last pairs outlast the
others of their keys. -/
theorem repeated_keys_iff (store : NvmKvStore) (thread : ι) (outcome : Nat → Bool)
    (poolId : UInt32) (kvIov : List NvmKvIovec) (allocation : BatchAllocation)
    (run after : DeviceRun ι)
    (absent : ∀ pair ∈ kvIov, AbsentKey store run.store poolId pair.key)
    (counted : ∀ pair ∈ kvIov, pair.Counted store)
    (succeeded : (kvBatchPut store poolId kvIov allocation).run
      (answerWith store thread outcome) run = some (.ok (), after)) :
    (∀ pair, LastOfKey kvIov pair → ExactlyStored store after.store poolId pair) ↔
      ∀ pair, LastOfKey kvIov pair → Outlasts store run.store.clock kvIov pair := by
  obtain ⟨laids, rfl, stored⟩ := batchStored_of_kvBatchPut absent counted succeeded
  refine forall_congr' fun pair => forall_congr' fun ofKey => ?_
  obtain ⟨left, laid, right, rfl, rfl, last⟩ := laid_of_last ofKey
  have unheld := (absent laid.pair (List.mem_map_of_mem
    (List.mem_append_right _ List.mem_cons_self))).unheld
  exact ⟨stored.outlasts thread unheld, stored.exactly last unheld⟩

section Letters

/-- An empty store, and nothing done on its device. -/
def unusedRun : DeviceRun Unit := ⟨openedTerabyte fun _ => none, 0, []⟩

/-- A pair of the key `a` with a long value from an aligned buffer. -/
def longPair (valueLen : Nat) : NvmKvIovec := ⟨[97], ⟨0, fun _ => 1⟩, valueLen, 0, 0, true⟩

/-- The key of the example is not in the unused store. -/
theorem longPair_absent : AbsentKey NvmKvStore.terabyteStore unusedRun.store 0 [97] where
  unheld lba _ := holds_unmapped (by decide) rfl
  uncached := rfl

/-- A batch of the key. -/
theorem longPairs_absent {lengths : List Nat} : ∀ pair ∈ lengths.map longPair,
    AbsentKey NvmKvStore.terabyteStore unusedRun.store 0 pair.key := by
  intro pair member
  obtain ⟨valueLen, _, rfl⟩ := List.mem_map.mp member
  exact longPair_absent

/-- A batch that the store answers with success. -/
theorem longPairs_run {lengths : List Nat}
    (succeeds : ((kvBatchPut NvmKvStore.terabyteStore 0 (lengths.map longPair) batchMemory).run
      (answerWith NvmKvStore.terabyteStore () fun _ => true) unusedRun).map Prod.fst =
        some (.ok ())) :
    ∃ after, (kvBatchPut NvmKvStore.terabyteStore 0 (lengths.map longPair) batchMemory).run
      (answerWith NvmKvStore.terabyteStore () fun _ => true) unusedRun = some (.ok (), after) := by
  obtain ⟨⟨result, after⟩, ran, same⟩ := Option.map_eq_some_iff.mp succeeds
  dsimp only at same
  subst same
  exact ⟨after, ran⟩

/-- A value of two sectors behind one of one sector outlasts it. -/
theorem growing_outlasts {pair : NvmKvIovec} (last : LastOfKey ([512, 1024].map longPair) pair) :
    Outlasts NvmKvStore.terabyteStore 0 ([512, 1024].map longPair) pair := by
  obtain rfl : pair = longPair 1024 := by
    obtain ⟨earlier, later, split, others⟩ := last
    match earlier with
    | [] =>
      obtain ⟨rfl, rfl⟩ := List.cons.inj split
      exact absurd rfl (others (longPair 1024) List.mem_cons_self)
    | [_] => exact (List.cons.inj (List.cons.inj split).2).1.symm
    | _ :: _ :: _ => exact absurd (congrArg List.length split) (by simp)
  refine ⟨?_, fun _ unaligned => absurd rfl unaligned, fun _ => by decide +kernel⟩
  intro other member _ _
  obtain ⟨valueLen, listed, rfl⟩ := List.mem_map.mp member
  rw [List.mem_cons, List.mem_singleton] at listed
  rcases listed with rfl | rfl
  · exact ⟨by decide +kernel, by decide +kernel⟩
  · exact ⟨by decide +kernel, by decide +kernel⟩

/-- So it is stored exactly. -/
theorem repeated_keys_growing :
    ∃ after, (kvBatchPut NvmKvStore.terabyteStore 0 ([512, 1024].map longPair) batchMemory).run
        (answerWith NvmKvStore.terabyteStore () fun _ => true) unusedRun = some (.ok (), after) ∧
      ∀ pair, LastOfKey ([512, 1024].map longPair) pair →
        ExactlyStored NvmKvStore.terabyteStore after.store 0 pair := by
  obtain ⟨after, ran⟩ := @longPairs_run [512, 1024] (by decide +kernel)
  refine ⟨after, ran, ?_⟩
  exact (repeated_keys_iff NvmKvStore.terabyteStore () (fun _ => true) 0 _ batchMemory unusedRun
    after longPairs_absent (by decide +kernel) ran).mpr fun _ => growing_outlasts

/-- A value of one sector behind one of two sectors does not: the second sector of the
longer value stays mapped. -/
theorem shorter_last_pair_leaves_sector :
    ∃ after, (kvBatchPut NvmKvStore.terabyteStore 0 ([1024, 512].map longPair) batchMemory).run
        (answerWith NvmKvStore.terabyteStore () fun _ => true) unusedRun = some (.ok (), after) ∧
      (∀ pair ∈ [1024, 512].map longPair,
        AbsentKey NvmKvStore.terabyteStore unusedRun.store 0 pair.key) ∧
      LastOfKey ([1024, 512].map longPair) (longPair 512) ∧
      ¬ExactlyStored NvmKvStore.terabyteStore after.store 0 (longPair 512) := by
  have last : LastOfKey ([1024, 512].map longPair) (longPair 512) :=
    ⟨[longPair 1024], [], rfl, fun _ none => absurd none List.not_mem_nil⟩
  obtain ⟨after, ran⟩ := @longPairs_run [1024, 512] (by decide +kernel)
  refine ⟨after, ran, longPairs_absent, last, ?_⟩
  intro exactly
  obtain ⟨laids, same, stored⟩ :=
    batchStored_of_kvBatchPut longPairs_absent (by decide +kernel) ran
  rw [← same] at last
  obtain ⟨left, laid, right, rfl, here, _⟩ := laid_of_last last
  rw [← here] at exactly
  have outlasts := stored.outlasts () (by rw [here]; exact longPair_absent.unheld) exactly
  rw [same, here] at outlasts
  exact absurd (outlasts.longest (longPair 1024) List.mem_cons_self rfl (by decide +kernel)).2
    (by decide +kernel)

end Letters

end Nvmkv
