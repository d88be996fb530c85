import Nvmkv.PairExtents
import Nvmkv.StoredPairs

/-!
# What is trimmed behind a replaced pair

A put that replaces a longer value trims in the batch that writes the new one. The
vector is computed from the two lengths, rounded up to sectors. It starts as many
sectors behind the address as the new value has, and ends as many behind it as the
old value had.

A value of more than the rest of a sector starts in the sector after the header's.
The vector therefore lies one sector before what the old pair has and the new one
has not: its first sector is the last one of the new value, and the last sector of
the old value is left. When the new value goes into the header's sector and the old
one did not, its last sector is left as well. The vector is right just when nothing
is to be trimmed.
-/

namespace Nvmkv

/-- A sector is covered by the trim vectors of a batch. -/
def TrimCovers (capabilities : NvmKvStoreCapabilities) (trims : List NvmIovec) (l : Nat) : Prop :=
  ∃ vector ∈ trims, vector.iovOpcode = .trim ∧ vector.iovLba ≤ l ∧
    l < vector.iovLba + vector.iovLen / capabilities.nvmSectorSize

/-- A sector belongs to the extent of a pair at an address. -/
def InExtent (lba sectors l : Nat) : Prop := lba ≤ l ∧ l < lba + sectors

/-- The trim vectors cover the sectors of the old pair that the new one does not have. -/
def TrimsExactly (capabilities : NvmKvStoreCapabilities) (trims : List NvmIovec)
    (lba oldSectors newSectors : Nat) : Prop :=
  ∀ l, TrimCovers capabilities trims l ↔ InExtent lba oldSectors l ∧ ¬InExtent lba newSectors l

section Vectors

variable {capabilities : NvmKvStoreCapabilities}

/-- A shorter value has no more sectors. -/
theorem valueSectors_mono {newLen oldLen : Nat} (shorter : newLen ≤ oldLen) :
    valueSectors capabilities newLen ≤ valueSectors capabilities oldLen :=
  Nat.div_le_div_right (Nat.add_le_add_right shorter _)

/-- The trim vector of a replaced pair covers the sectors from the length of the new
value to that of the old one, counted from the address. -/
theorem trimCovers_iff {hdr : NvmKvHeader} {newLen lba : Nat} {trims : List NvmIovec}
    (positive : 0 < newLen) (bounded : hdr.valueLen ≤ nvmKvMaxValueSize)
    (shorter : newLen ≤ hdr.valueLen)
    (trimmed : kvProcessForTrim capabilities newLen (replacedLen hdr newLen) lba = .ok trims)
    (l : Nat) :
    TrimCovers capabilities trims l ↔ lba + valueSectors capabilities newLen ≤ l ∧
      l < lba + valueSectors capabilities hdr.valueLen := by
  have sector := capabilities.sector_positive
  have limit : nvmKvMaxValueSize = 1047552 := rfl
  have fewer := @valueSectors_mono capabilities newLen hdr.valueLen shorter
  unfold replacedLen at trimmed
  by_cases less : newLen < hdr.valueLen
  · rw [if_pos less] at trimmed
    rw [kvProcessForTrim_eq positive (shorter.trans bounded) (by omega) trimmed (Or.inr less)]
    by_cases more : valueSectors capabilities newLen < valueSectors capabilities hdr.valueLen
    · rw [if_pos more]
      constructor
      · rintro ⟨vector, member, _, starts, ends⟩
        obtain rfl := List.mem_singleton.mp member
        dsimp only at starts ends
        rw [Nat.mul_div_cancel _ sector] at ends
        omega
      · rintro ⟨starts, ends⟩
        refine ⟨_, List.mem_singleton_self _, rfl, starts, ?_⟩
        dsimp only
        rw [Nat.mul_div_cancel _ sector]
        omega
    · rw [if_neg more]
      constructor
      · rintro ⟨_, none, _⟩
        cases none
      · intro between
        omega
  · have same : newLen = hdr.valueLen := by omega
    have least := @valueSectors_mono capabilities 0 newLen (Nat.zero_le _)
    rw [if_neg less] at trimmed
    rw [kvProcessForTrim_eq positive (shorter.trans bounded) (by omega) trimmed (Or.inl rfl),
      if_neg (by omega), same]
    constructor
    · rintro ⟨_, none, _⟩
      cases none
    · intro between
      omega

end Vectors

/-- Of two accepted values of one key the shorter one needs no more sectors. When they
need as many, so do the values alone. -/
theorem pairSectors_shorter {capabilities : NvmKvStoreCapabilities} {keyLen newLen oldLen : Nat}
    (newValue oldValue : Memory) (short : keyLen ≤ nvmKvMaxKeySize) (positive : 0 < newLen)
    (shorter : newLen ≤ oldLen) (bounded : oldLen ≤ nvmKvMaxValueSize) :
    (pairSectors capabilities keyLen oldValue oldLen =
        pairSectors capabilities keyLen newValue newLen ∧
      valueSectors capabilities oldLen = valueSectors capabilities newLen) ∨
    (pairSectors capabilities keyLen newValue newLen <
        pairSectors capabilities keyLen oldValue oldLen ∧
      pairSectors capabilities keyLen oldValue oldLen =
        1 + valueSectors capabilities oldLen) := by
  have fewer := @valueSectors_mono capabilities newLen oldLen shorter
  obtain ⟨enoughNew, _⟩ := valueSectors_covers capabilities newLen
  have some : ∀ length, 0 < length → 0 < valueSectors capabilities length := by
    intro length more
    obtain ⟨enough, _⟩ := valueSectors_covers capabilities length
    by_contra none
    rw [Nat.eq_zero_of_not_pos none, Nat.zero_mul] at enough
    omega
  have one : ∀ length, 0 < length → fitsSector capabilities keyLen length →
      valueSectors capabilities length = 1 := by
    intro length more fits
    unfold fitsSector at fits
    unfold valueSectors
    apply Nat.div_eq_of_lt_le <;> omega
  rw [pairSectors_eq oldValue short (by omega) bounded,
    pairSectors_eq newValue short positive (by omega)]
  by_cases oldFits : fitsSector capabilities keyLen oldLen
  · have newFits : fitsSector capabilities keyLen newLen := by
      unfold fitsSector at oldFits ⊢
      omega
    left
    rw [if_pos oldFits, if_pos newFits, one _ (by omega) oldFits, one _ positive newFits]
    exact ⟨rfl, rfl⟩
  · rw [if_neg oldFits]
    have oldSome := some oldLen (by omega)
    by_cases newFits : fitsSector capabilities keyLen newLen
    · right
      rw [if_pos newFits]
      exact ⟨by omega, rfl⟩
    · rw [if_neg newFits]
      omega

/-- The trim vector of a put that replaces a live pair covers what the old pair has and the new one
has not, just when the two have equally many sectors. Otherwise the last sector of the old value is
not covered. -/
theorem trims_exactly_iff (store : NvmKvStore) (key : List UInt8) (hdr : NvmKvHeader)
    (oldValue newValue : Memory) (newLen lba : Nat) (trims : List NvmIovec)
    (key_accepted : kvValidateKey key = true)
    (old_accepted : kvValidateValue store false hdr.valueLen = true)
    (new_accepted : kvValidateValue store false newLen = true) (shorter : newLen ≤ hdr.valueLen)
    (trimmed : kvProcessForTrim store.capabilities newLen (replacedLen hdr newLen) lba =
      .ok trims) :
    TrimsExactly store.capabilities trims lba
        (pairSectors store.capabilities key.length oldValue hdr.valueLen)
        (pairSectors store.capabilities key.length newValue newLen) ↔
      pairSectors store.capabilities key.length oldValue hdr.valueLen =
        pairSectors store.capabilities key.length newValue newLen := by
  have short := (of_decide_eq_true key_accepted).2
  obtain ⟨_, bounded, _⟩ := of_decide_eq_true old_accepted
  obtain ⟨positive, _, _⟩ := of_decide_eq_true new_accepted
  have covered := trimCovers_iff positive bounded shorter trimmed
  rcases @pairSectors_shorter store.capabilities key.length newLen hdr.valueLen newValue oldValue
    short positive shorter bounded with ⟨same, values⟩ | ⟨less, old⟩
  · constructor
    · exact fun _ => same
    · intro _ l
      rw [covered l, same, values]
      constructor
      · intro between
        omega
      · rintro ⟨inside, outside⟩
        exact absurd inside outside
  · constructor
    · intro exact
      have last := (exact (lba + valueSectors store.capabilities hdr.valueLen)).mpr
        ⟨⟨by omega, by omega⟩, by unfold InExtent; omega⟩
      have before := ((covered _).mp last).2
      omega
    · intro same
      omega

/-- A value of 1000 bytes replaced by one of 600 bytes: both have two sectors. -/
theorem nothing_to_trim :
    TrimsExactly NvmKvStore.terabyteStore.capabilities [] 5
      (pairSectors NvmKvStore.terabyteStore.capabilities 1 (poolBuffer fun _ => 0) 1000)
      (pairSectors NvmKvStore.terabyteStore.capabilities 1 (poolBuffer fun _ => 0) 600) :=
  (trims_exactly_iff NvmKvStore.terabyteStore [97] ⟨1, 1000, 512, 0, 0, 0⟩ (poolBuffer fun _ => 0)
    (poolBuffer fun _ => 0) 600 5 [] (by decide) (by decide) (by decide) (by decide)
    (by simp [kvProcessForTrim, replacedLen, nvmKvRoundUptoBlk, NvmKvStore.terabyteStore,
      NvmKvStoreCapabilities.maxTrimSize])).mpr (by decide +kernel)

/-- A value of 1024 bytes at sector 5 is replaced by one of 512 bytes. Sector 6 is trimmed,
which has the new value, and sector 7 is not. -/
theorem trim_hits_new_value :
    ¬∀ (store : NvmKvStore) (key : List UInt8) (hdr : NvmKvHeader) (oldValue newValue : Memory)
      (newLen lba : Nat) (trims : List NvmIovec), kvValidateKey key = true →
      kvValidateValue store false hdr.valueLen = true →
      kvValidateValue store false newLen = true → newLen ≤ hdr.valueLen →
      kvProcessForTrim store.capabilities newLen (replacedLen hdr newLen) lba = .ok trims →
      TrimsExactly store.capabilities trims lba
        (pairSectors store.capabilities key.length oldValue hdr.valueLen)
        (pairSectors store.capabilities key.length newValue newLen) := by
  intro exact
  have trimmed : kvProcessForTrim NvmKvStore.terabyteStore.capabilities 512
      (replacedLen ⟨1, 1024, 512, 0, 0, 0⟩ 512) 5 =
      .ok [⟨poolBuffer fun _ => 0, 512, 6, .trim⟩] := by
    simp [kvProcessForTrim, replacedLen, nvmKvRoundUptoBlk, NvmKvStore.terabyteStore,
      NvmKvStoreCapabilities.maxTrimSize]
  have claimed := exact NvmKvStore.terabyteStore [97] ⟨1, 1024, 512, 0, 0, 0⟩
    (poolBuffer fun _ => 0) (poolBuffer fun _ => 0) 512 5 _ (by decide) (by decide) (by decide)
    (by decide) trimmed
  have hit := ((claimed 6).mp ⟨_, List.mem_singleton_self _, rfl, le_rfl, by decide⟩).2
  exact hit (by unfold InExtent; decide)

end Nvmkv
