import Nvmkv.IterationExact
import Nvmkv.PoolAsMap

/-!
# Pools whose pairs tile what is mapped

The device tells a store what is mapped as ranges without a gap, and the store takes every
range for a pair. That is right when the mapped sectors are those of pairs, and when a
sector between any two pairs is not mapped.

In a pool that is used alone the gap is always there. A sector that belongs to no pair is
left behind only by a value of fewer sectors that replaces another one, so there is none
when every key always has the same number of sectors. The pairs then tile what is mapped,
and the mapped ranges of the device are the pairs of the pool.
-/

namespace Nvmkv

variable {ι : Type}

/-- Pieces with a gap between them that make up what is mapped are the mapped ranges. A mapped
sector next to a piece would belong to another one without a gap. -/
theorem Media.mem_logicalRanges_of_pieces {media : Media} {search : NvmBlockRange}
    {piece : NvmBlockRange → Prop}
    (covered : ∀ l, search.Covers l → (media l).isSome = true →
      ∃ range, piece range ∧ range.Covers l)
    (mapped : ∀ range l, piece range → range.Covers l → (media l).isSome = true)
    (inside : ∀ range, piece range → 0 < range.length ∧ search.startLba ≤ range.startLba ∧
      range.startLba + range.length ≤ search.startLba + search.length)
    (apart : ∀ first second, piece first → piece second → first.startLba ≤ second.startLba →
      first = second ∨ first.startLba + first.length < second.startLba) {range : NvmBlockRange} :
    range ∈ media.logicalRanges search ↔ piece range := by
  have listed : ∀ range, piece range → range ∈ media.logicalRanges search := by
    intro range isPiece
    obtain ⟨some, front, back⟩ := inside range isPiece
    apply Media.IsRun.mem
    have alone : ∀ l, search.Covers l → (l + 1 = range.startLba ∨
        l = range.startLba + range.length) → media l = none := by
      intro l within beside
      by_contra there
      obtain ⟨other, otherPiece, low, high⟩ :=
        covered l within (Option.isSome_iff_ne_none.mpr there)
      rcases Nat.le_total other.startLba range.startLba with before | behind
      · rcases apart other range otherPiece isPiece before with rfl | gap <;> omega
      · rcases apart range other isPiece otherPiece behind with rfl | gap <;> omega
    constructor
    · exact front
    · exact some
    · exact back
    · exact fun l covers => mapped range l isPiece covers
    · rcases Nat.eq_or_lt_of_le front with same | later
      · exact Or.inl same.symm
      · exact Or.inr (alone _ ⟨by omega, by omega⟩ (Or.inl (by omega)))
    · rcases Nat.eq_or_lt_of_le back with same | earlier
      · exact Or.inl same
      · exact Or.inr (alone _ ⟨by omega, by omega⟩ (Or.inr rfl))
  constructor
  · intro member
    have run := Media.isRun_of_mem member
    have first : range.Covers range.startLba := ⟨le_rfl, by have := run.positive; omega⟩
    obtain ⟨other, otherPiece, covers⟩ := covered range.startLba
      ⟨run.above, by have := run.positive; have := run.below; omega⟩ (run.mapped _ first)
    rw [Media.logicalRanges_unique member (listed other otherPiece) first covers]
    exact otherPiece
  · exact listed range

/-- A call in a pool that is used for some keys. A put gives its key a value of the sectors that
the key always has with its header, and no address of the key lies in the metadata. Pairs are
deleted only when the keys have first addresses of their own. -/
structure TidyCall (store : NvmKvStore) (pool : UInt32) (sectors extents : List UInt8 → Nat)
    (keys : List UInt8 → Prop) (call : UserCall) : Prop where
  plain : PlainCall store pool sectors call
  within : PutsWithin keys call
  deletes : OwnHomes store pool keys ∨ DeletesNone call
  sized : ∀ poolId pair allocation, call = .kvPut poolId pair allocation →
    sectorsWritten store.capabilities (pair.layout store) pair.valueLen = extents pair.key
  clear : ∀ poolId pair allocation, call = .kvPut poolId pair allocation →
    store.MetadataFree pool pair.key

/-- The pair of a key at one of its addresses, with all the sectors that the key has. -/
structure WholePair (store : NvmKvStore) (media : Media) (pool : UInt32)
    (extents : List UInt8 → Nat) (key : List UInt8) (lba : Nat) : Prop where
  valid : kvValidateKey key = true
  clear : store.MetadataFree pool key
  probed : lba ∈ store.probes pool key
  held : holds store media pool key lba = true
  extent : valueSectors store.capabilities ((storedHeader store media lba).valueOffset +
    (storedHeader store media lba).valueLen) = extents key
  positive : 0 < extents key
  few : extents key ≤ 2 ^ store.poolBits + 1
  mapped : ∀ l, lba ≤ l → l < lba + extents key → media l ≠ none

/-- Every mapped sector is one of a whole pair, and so is every header of a key. -/
structure Tiled (store : NvmKvStore) (media : Media) (pool : UInt32)
    (extents : List UInt8 → Nat) : Prop where
  covered : ∀ l, media l ≠ none → ∃ key lba, WholePair store media pool extents key lba ∧
    lba ≤ l ∧ l < lba + extents key
  whole : ∀ key lba, kvValidateKey key = true → lba ∈ store.probes pool key →
    holds store media pool key lba = true → WholePair store media pool extents key lba

section Pairs

variable {store : NvmKvStore} {media other : Media} {pool : UInt32} {extents : List UInt8 → Nat}
  {key rival : List UInt8} {lba place : Nat}

/-- A pair ends before its slot does. -/
theorem WholePair.short (whole : WholePair store media pool extents key lba) :
    extents key < 2 ^ store.valueBits := by
  have few := whole.few
  have halves := @NvmKvStore.slot_halves store
  obtain ⟨_, enough, _⟩ := store.sector_value_bits
  have large : 2 ^ 9 ≤ 2 ^ store.valueBits := Nat.pow_le_pow_right (by decide) enough
  omega

/-- A pair stays whole while its sectors are mapped and its header is as it was. -/
theorem WholePair.congr (whole : WholePair store media pool extents key lba)
    (mapped : ∀ l, lba ≤ l → l < lba + extents key → other l ≠ none)
    (first : other lba = media lba) : WholePair store other pool extents key lba := by
  obtain ⟨valid, clear, probed, held, extent, positive, few, _⟩ := whole
  refine ⟨valid, clear, probed, ?_, ?_, positive, few, mapped⟩
  · rw [holds_congr (of_decide_eq_true valid).2 first]
    exact held
  · rw [storedHeader_congr first]
    exact extent

/-- Of two pairs of a pool, one ends before the other one, with a gap. -/
theorem WholePair.apart (whole : WholePair store media pool extents key lba)
    (next : WholePair store media pool extents rival place) (before : lba ≤ place) :
    lba = place ∧ key = rival ∨ lba + extents key < place := by
  have short := whole.short
  rcases Nat.lt_or_ge place (lba + 2 ^ store.valueBits) with near | far
  · have nonempty := List.length_pos_iff.mp (of_decide_eq_true whole.valid).1
    have rivalNonempty := List.length_pos_iff.mp (of_decide_eq_true next.valid).1
    obtain rfl := probes_apart nonempty rivalNonempty whole.probed next.probed before near
    exact Or.inl ⟨rfl, key_of_holds next.held whole.held⟩
  · right
    omega

end Pairs

section Steps

variable {store : NvmKvStore} {pool : UInt32} {extents : List UInt8 → Nat} {before next : Media}
  {pair : NvmKvIovec} {lba : Nat}

/-- A device without data is tiled by no pairs. -/
theorem tiled_blank {media : Media} (blank : ∀ l, media l = none) :
    Tiled store media pool extents := by
  constructor
  · intro l mapped
    exact absurd (blank l) mapped
  · intro key lba valid _ held
    exact absurd (blank lba) (mapped_of_holds (of_decide_eq_true valid).1 held)

/-- The pair of a put is whole. -/
theorem PutSectors.wholePair (put : PutSectors store pool pair before next lba)
    (sized : sectorsWritten store.capabilities (pair.layout store) pair.valueLen =
      extents pair.key) (clear : store.MetadataFree pool pair.key) :
    WholePair store next pool extents pair.key lba := by
  obtain ⟨valid, ends, held, _, extent, few, written, _⟩ := put
  have some : 0 < extents pair.key := by
    rw [← sized, sectorsWritten]
    split <;> omega
  rw [sized] at extent few written
  exact ⟨valid, clear, searchEnd_probed ends, held, extent, some, few, written⟩

/-- The pairs of other keys are not touched by a put. -/
theorem WholePair.put {key : List UInt8} {place : Nat}
    (whole : WholePair store before pool extents key place)
    (put : PutSectors store pool pair before next lba) (different : key ≠ pair.key) :
    WholePair store next pool extents key place := by
  apply whole.congr
  · intro l low high
    rcases put.sectors l with same | ⟨_, mapped⟩
    · rw [same]
      exact whole.mapped l low high
    · exact mapped
  · rcases put.sectors place with same | ⟨inside, _⟩
    · exact same
    · exact absurd (put.at_address whole.valid whole.probed inside)
        (put.other_address whole.valid different whole.held)

/-- A put keeps the tiling when the key keeps its number of sectors. Had the key its pair elsewhere,
the put would have left it there. -/
theorem Tiled.put (tiled : Tiled store before pool extents)
    (put : PutSectors store pool pair before next lba)
    (sized : sectorsWritten store.capabilities (pair.layout store) pair.valueLen =
      extents pair.key) (clear : store.MetadataFree pool pair.key) :
    Tiled store next pool extents := by
  have own := put.wholePair sized clear
  constructor
  · intro l mapped
    by_cases inside : lba ≤ l ∧ l < lba + extents pair.key
    · exact ⟨pair.key, lba, own, inside⟩
    · rw [put.kept l (by rw [sized]; exact inside)] at mapped
      obtain ⟨key, place, whole, covers⟩ := tiled.covered l mapped
      refine ⟨key, place, whole.put put ?_, covers⟩
      rintro rfl
      have elsewhere : place ≠ lba := by
        rintro rfl
        exact inside covers
      apply elsewhere
      apply put.alone place whole.probed lba own.probed ?_ own.held
      rw [holds_congr (of_decide_eq_true whole.valid).2]
      · exact whole.held
      · rcases put.sectors place with same | ⟨near, _⟩
        · exact same
        · exact absurd (put.at_address whole.valid whole.probed near) elsewhere
  · intro key place valid probed held
    by_cases same : key = pair.key
    · subst same
      rw [put.alone place probed lba own.probed held own.held]
      exact own
    · exact (tiled.whole key place valid probed ((put.holds_iff valid same probed).mp held).1).put
        put same

/-- So does a delete. It trims all sectors of its pair and none of another one. -/
theorem Tiled.trim (tiled : Tiled store before pool extents) {key : List UInt8}
    (valid : kvValidateKey key = true) (found : lookupLba store before pool key = some lba) :
    Tiled store (before.trim lba (2 ^ store.valueBits)) pool extents := by
  have probed := List.mem_of_find?_eq_some found
  have nonempty := List.length_pos_iff.mp (of_decide_eq_true valid).1
  have stays : ∀ rival place, WholePair store before pool extents rival place → place ≠ lba →
      WholePair store (before.trim lba (2 ^ store.valueBits)) pool extents rival place := by
    intro rival place whole different
    have rivalNonempty := List.length_pos_iff.mp (of_decide_eq_true whole.valid).1
    have apart : ∀ l, place ≤ l → l < place + extents rival →
        ¬(lba ≤ l ∧ l < lba + 2 ^ store.valueBits) := by
      rintro l low high ⟨front, back⟩
      have short := whole.short
      apply different
      rcases Nat.le_total place lba with less | more
      · exact probes_apart rivalNonempty nonempty whole.probed probed less (by omega)
      · exact (probes_apart nonempty rivalNonempty probed whole.probed more (by omega)).symm
    apply whole.congr
    · intro l low high
      rw [Media.trim_outside (apart l low high)]
      exact whole.mapped l low high
    · have some := whole.positive
      exact Media.trim_outside (apart place le_rfl (by omega))
  constructor
  · intro l mapped
    have outside : ¬(lba ≤ l ∧ l < lba + 2 ^ store.valueBits) :=
      fun inside => mapped (Media.trim_inside inside)
    rw [Media.trim_outside outside] at mapped
    obtain ⟨rival, place, whole, covers⟩ := tiled.covered l mapped
    refine ⟨rival, place, stays rival place whole ?_, covers⟩
    rintro rfl
    have short := whole.short
    omega
  · intro rival place rivalValid rivalProbed held
    have rivalNonempty := of_decide_eq_true rivalValid
    have elsewhere : place ≠ lba := by
      rintro rfl
      apply mapped_of_holds rivalNonempty.1 held
      exact Media.trim_inside ⟨le_rfl, Nat.lt_add_of_pos_right (Nat.two_pow_pos _)⟩
    apply stays rival place _ elsewhere
    apply tiled.whole rival place rivalValid rivalProbed
    rw [← holds_congr rivalNonempty.2 (Media.trim_outside ?_)]
    · exact held
    · rintro ⟨front, back⟩
      apply elsewhere
      exact (probes_apart nonempty (List.length_pos_iff.mp rivalNonempty.1) probed rivalProbed front
        back).symm

end Steps

/-- Runs of tidy calls are runs of a map whose pairs tile what is mapped. -/
theorem tiled_of_run {store : NvmKvStore} {thread : ι} {pool : UInt32}
    {sectors extents : List UInt8 → Nat} {keys : List UInt8 → Prop}
    (noCache : store.cacheSize = 0) (disabled : store.expiryMode = .disableExpiry)
    (limited : PowerOfTwoLimit store.capabilities)
    (vectors : 2 ≤ store.capabilities.nvmMaxNumIovs) {start state : StoreState ι}
    (idle : Idle start) (blank : ∀ l, start.media l = none) {trace : List PairEvent}
    (run : TracedRun (UserStep store thread fun call _ =>
      TidyCall store pool sectors extents keys call) start trace state) :
    ∃ map, Makes (MapStep StoredContent.shown) (fun _ => none) trace map ∧
      Tiled store state.media pool extents ∧
        Represents store (fun other => other = pool) state map ∧
          HasSectors store pool sectors map := by
  have put : ∀ before after pair allocation lba, Tiled store before pool extents →
      TidyCall store pool sectors extents keys (.kvPut pool pair allocation) →
        PutSectors store pool pair before after lba → Tiled store after pool extents :=
    fun _ _ _ _ _ tiled tidy put =>
      tiled.put put (tidy.sized _ _ _ rfl) (tidy.clear _ _ _ rfl)
  by_cases homes : OwnHomes store pool keys
  · obtain ⟨map, makes, ⟨_, tiled⟩, represents⟩ := @represents_of_invariant ι store thread pool
      sectors (fun call => TidyCall store pool sectors extents keys call)
      (fun media => AtHome store media pool keys ∧ Tiled store media pool extents) noCache disabled
      limited vectors (fun _ tidy => tidy.plain)
      (fun _ _ _ kept tidy valid => kept.1.noHole homes tidy.within valid)
      (fun before after pair allocation lba kept tidy sectors =>
        ⟨kept.1.put homes sectors tidy.within, put before after pair allocation lba kept.2 tidy
          sectors⟩)
      (fun _ _ _ _ _ kept _ valid found => ⟨kept.1.trim valid found, kept.2.trim valid found⟩)
      start state idle blank ⟨fun l mapped => absurd (blank l) mapped, tiled_blank blank⟩ trace run
    exact ⟨map, makes, tiled, represents⟩
  · obtain ⟨map, makes, ⟨_, tiled⟩, represents⟩ := @represents_of_invariant ι store thread pool
      sectors (fun call => TidyCall store pool sectors extents keys call)
      (fun media => NoHoles store media pool ∧ Tiled store media pool extents) noCache disabled
      limited vectors (fun _ tidy => tidy.plain)
      (fun _ pair _ kept _ valid => kept.1 pair.key valid)
      (fun before after pair allocation lba kept tidy sectors =>
        ⟨kept.1.put sectors, put before after pair allocation lba kept.2 tidy sectors⟩)
      (fun _ _ _ _ _ _ tidy _ _ => absurd (tidy.deletes.resolve_left homes) id)
      start state idle blank
      ⟨fun key valid lba _ _ l _ => holds_unmapped (of_decide_eq_true valid).1 (blank l),
        tiled_blank blank⟩ trace run
    exact ⟨map, makes, tiled, represents⟩

section Listed

variable {store : NvmKvStore} {media : Media} {pool : UInt32} {extents : List UInt8 → Nat}
  {key : List UInt8} {lba : Nat}

/-- A pair lies in the data area. -/
theorem WholePair.inside (known : pool.toNat < store.maxPools)
    (whole : WholePair store media pool extents key lba) :
    store.dataStartLba ≤ lba ∧ lba + extents key ≤ store.kvLen := by
  obtain ⟨i, probed, rfl⟩ := mem_probes.mp whole.probed
  obtain ⟨above, below⟩ := whole.clear i probed
  have nonempty := List.length_pos_iff.mp (of_decide_eq_true whole.valid).1
  have address := @NvmKvStore.probeLba_eq store pool key i known nonempty probed
  have offset := @NvmKvStore.poolIdHash_lt store pool known
  have halves := @NvmKvStore.slot_halves store
  have few := whole.few
  refine ⟨above, ?_⟩
  rw [address] at above below ⊢
  have slot := (NvmKvStore.data_address_iff (offset.trans NvmKvStore.poolBits_lt)).mp
    ⟨above, below⟩
  have whole := Nat.mul_le_mul_right (2 ^ store.valueBits) slot.2
  rw [Nat.succ_mul, ← NvmKvStore.kvLen_eq] at whole
  omega

/-- The mapped ranges of the data area are the pairs. -/
theorem Tiled.mem_logicalRanges (tiled : Tiled store media pool extents)
    (known : pool.toNat < store.maxPools) {range : NvmBlockRange} :
    range ∈ media.logicalRanges store.usrData ↔
      ∃ key, WholePair store media pool extents key range.startLba ∧
        range.length = extents key := by
  apply Media.mem_logicalRanges_of_pieces
  · intro l _ mapped
    obtain ⟨key, lba, whole, covers⟩ := tiled.covered l (Option.isSome_iff_ne_none.mp mapped)
    exact ⟨⟨lba, extents key⟩, ⟨key, whole, rfl⟩, covers⟩
  · rintro range l ⟨key, whole, length⟩ ⟨low, high⟩
    rw [length] at high
    exact Option.isSome_iff_ne_none.mpr (whole.mapped l low high)
  · rintro range ⟨key, whole, length⟩
    obtain ⟨above, below⟩ := whole.inside known
    rw [length, NvmKvStore.usrData]
    refine ⟨whole.positive, above, ?_⟩
    dsimp only
    omega
  · rintro ⟨lba, length⟩ ⟨place, count⟩ ⟨key, whole, rfl⟩ ⟨rival, next, rfl⟩ before
    rcases whole.apart next before with ⟨same, rfl⟩ | gap
    · dsimp only at same
      subst same
      exact Or.inl rfl
    · exact Or.inr gap

end Listed

end Nvmkv
