import Mathlib.Data.List.Find
import Mathlib.Tactic.NormNum
import Nvmkv.Common

/-!
# The device as a map of sectors

The NVM primitives are outside the repository. The model of the device is the
one their documentation gives the store: a map from sector addresses to the
contents of mapped sectors. A range query reports the first maximal run of
mapped sectors in the range, a vectored read returns the bytes from an address
on with zeros for unmapped sectors, and an atomic batch applies its write and
trim vectors in list order.

A sector's content is a region of which only the offsets below the sector size
are ever read.
-/

namespace Nvmkv

/-- A piece of memory: where it starts and what it holds. The start matters for
the alignment checks only. -/
structure Memory where
  address : Nat
  bytes : Region

/-- A buffer of the buffer pool. These are allocated aligned to the sector. -/
def poolBuffer (bytes : Region) : Memory := ⟨0, bytes⟩

/-- What a vector asks of the device. -/
inductive NvmIovOpcode where
  | write
  | trim
  deriving DecidableEq

/-- A vector of an atomic batch or of a read (`nvm_iovec_t`). -/
structure NvmIovec where
  iovBase : Memory
  iovLen : Nat
  iovLba : Nat
  iovOpcode : NvmIovOpcode

/-- A range of sectors (`nvm_block_range_t`). -/
structure NvmBlockRange where
  startLba : Nat
  length : Nat

/-- The mapped sectors and their contents. -/
abbrev Media := Nat → Option Region

namespace Media

variable (media : Media)

/-- The bytes stored from a sector on. Unmapped sectors read as zeros. -/
def read (sectorSize lba : Nat) : Region := fun i =>
  match media (lba + i / sectorSize) with
  | some sector => sector (i % sectorSize)
  | none => 0

/-- Map a run of sectors to the bytes of a region. -/
def write (sectorSize lba sectors : Nat) (source : Region) : Media := fun l =>
  if lba ≤ l ∧ l < lba + sectors then some (source.drop ((l - lba) * sectorSize)) else media l

/-- Unmap a run of sectors. -/
def trim (lba sectors : Nat) : Media := fun l =>
  if lba ≤ l ∧ l < lba + sectors then none else media l

/-- The effect of one vector of an atomic batch. -/
def applyIovec (sectorSize : Nat) (media : Media) (iovec : NvmIovec) : Media :=
  match iovec.iovOpcode with
  | .write => media.write sectorSize iovec.iovLba (iovec.iovLen / sectorSize) iovec.iovBase.bytes
  | .trim => media.trim iovec.iovLba (iovec.iovLen / sectorSize)

/-- The effect of an atomic batch (`nvm_batch_atomic_operations`). -/
def applyBatch (sectorSize : Nat) (iovec : List NvmIovec) : Media :=
  iovec.foldl (applyIovec sectorSize) media

/-- Fill the buffers of a vectored read, one after the other, with the bytes
from an offset on. -/
def fillBuffers (bytes : Region) : Nat → List NvmIovec → List Region
  | _, [] => []
  | offset, vector :: rest =>
      vector.iovBase.bytes.copy 0 vector.iovLen (bytes.drop offset) ::
        fillBuffers bytes (offset + vector.iovLen) rest

/-- The buffers after a vectored read, which starts at the address of the first
vector (`preadv`). -/
def readBuffers (sectorSize : Nat) (iovec : List NvmIovec) : List Region :=
  match iovec with
  | [] => []
  | first :: _ => fillBuffers (media.read sectorSize first.iovLba) 0 iovec

/-- The first maximal run of mapped sectors in a range; its length is zero when
there is none (`nvm_range_exists`). -/
def rangeExists (search : NvmBlockRange) : NvmBlockRange :=
  match (List.range search.length).find? fun i => (media (search.startLba + i)).isSome with
  | none => ⟨search.startLba, 0⟩
  | some i =>
      ⟨search.startLba + i, ((List.range (search.length - i)).takeWhile fun j =>
        (media (search.startLba + i + j)).isSome).length⟩

/-- No sector of a range is mapped. -/
def Unmapped (lba sectors : Nat) : Prop := ∀ i, i < sectors → media (lba + i) = none

/-- A vector covers the sectors it writes or trims. -/
def Covers (sectorSize : Nat) (iovec : NvmIovec) (lba : Nat) : Prop :=
  iovec.iovLba ≤ lba ∧ lba < iovec.iovLba + iovec.iovLen / sectorSize

/-- Whether a vector covers a sector can be computed. -/
instance (sectorSize : Nat) (iovec : NvmIovec) (lba : Nat) :
    Decidable (Covers sectorSize iovec lba) := inferInstanceAs (Decidable (_ ∧ _))

variable {media}

/-- A write puts the bytes of the source at its sectors, one sector's bytes after the other. -/
theorem write_inside {sectorSize lba sectors l : Nat} {source : Region}
    (inside : lba ≤ l ∧ l < lba + sectors) :
    media.write sectorSize lba sectors source l =
      some (source.drop ((l - lba) * sectorSize)) := if_pos inside

/-- It changes no other sector. -/
theorem write_outside {sectorSize lba sectors l : Nat} {source : Region}
    (outside : ¬(lba ≤ l ∧ l < lba + sectors)) :
    media.write sectorSize lba sectors source l = media l := if_neg outside

/-- A trim unmaps its sectors. -/
theorem trim_inside {lba sectors l : Nat} (inside : lba ≤ l ∧ l < lba + sectors) :
    media.trim lba sectors l = none := if_pos inside

/-- It changes no other sector. -/
theorem trim_outside {lba sectors l : Nat} (outside : ¬(lba ≤ l ∧ l < lba + sectors)) :
    media.trim lba sectors l = media l := if_neg outside

/-- No vector changes nothing. -/
@[simp] theorem applyBatch_nil (sectorSize : Nat) : media.applyBatch sectorSize [] = media := rfl

/-- The vectors of a batch are applied in order. -/
@[simp] theorem applyBatch_cons (sectorSize : Nat) (iovec : NvmIovec) (rest : List NvmIovec) :
    media.applyBatch sectorSize (iovec :: rest) =
      (media.applyIovec sectorSize iovec).applyBatch sectorSize rest := rfl

/-- So are batches that are joined. -/
theorem applyBatch_append (sectorSize : Nat) (first rest : List NvmIovec) :
    media.applyBatch sectorSize (first ++ rest) =
      (media.applyBatch sectorSize first).applyBatch sectorSize rest := List.foldl_append

/-- A vector leaves the sectors alone that it does not cover. -/
theorem applyIovec_frame {sectorSize l : Nat} {iovec : NvmIovec}
    (outside : ¬Covers sectorSize iovec l) : media.applyIovec sectorSize iovec l = media l := by
  cases opcode : iovec.iovOpcode with
  | write =>
    simp only [applyIovec, opcode]
    exact write_outside outside
  | trim =>
    simp only [applyIovec, opcode]
    exact trim_outside outside

/-- A batch leaves the sectors alone that none of its vectors covers. -/
theorem applyBatch_frame {sectorSize l : Nat} {iovec : List NvmIovec}
    (outside : ∀ vector, vector ∈ iovec → ¬Covers sectorSize vector l) :
    media.applyBatch sectorSize iovec l = media l := by
  induction iovec generalizing media with
  | nil => rfl
  | cons vector rest inductionHypothesis =>
    rw [applyBatch_cons, inductionHypothesis fun other member =>
      outside other (List.mem_cons_of_mem _ member)]
    exact applyIovec_frame (outside vector List.mem_cons_self)

/-- A batch of trims unmaps the sectors that one of its vectors covers. -/
theorem applyBatch_trims {sectorSize l : Nat} {iovec : List NvmIovec}
    (trims : ∀ vector ∈ iovec, vector.iovOpcode = .trim)
    (inside : ∃ vector ∈ iovec, Covers sectorSize vector l) :
    media.applyBatch sectorSize iovec l = none := by
  induction iovec generalizing media with
  | nil =>
    obtain ⟨_, absent, _⟩ := inside
    exact nomatch absent
  | cons vector rest inductionHypothesis =>
    rw [applyBatch_cons]
    by_cases later : ∃ other ∈ rest, Covers sectorSize other l
    · exact inductionHypothesis (fun other member =>
        trims other (List.mem_cons_of_mem _ member)) later
    · rw [applyBatch_frame fun other member covers => later ⟨other, member, covers⟩]
      obtain ⟨other, member, covers⟩ := inside
      rcases List.mem_cons.mp member with same | member
      · rw [same] at covers
        simp only [applyIovec, trims vector List.mem_cons_self]
        exact trim_inside covers
      · exact absurd ⟨other, member, covers⟩ later

/-- The bytes read inside one mapped sector are those of its content. -/
theorem read_sector {sectorSize lba i : Nat} {sector : Region} (stored : media lba = some sector)
    (inside : i < sectorSize) : media.read sectorSize lba i = sector i := by
  unfold read
  rw [Nat.div_eq_of_lt inside, Nat.add_zero, stored]
  simp only [Nat.mod_eq_of_lt inside]

/-- Reading depends on the sectors read only. -/
theorem read_congr {other : Media} {sectorSize lba i : Nat}
    (same : media (lba + i / sectorSize) = other (lba + i / sectorSize)) :
    media.read sectorSize lba i = other.read sectorSize lba i := by
  unfold read
  rw [same]

/-- A range query finds nothing exactly when nothing in the range is mapped. -/
theorem rangeExists_length_eq_zero (search : NvmBlockRange) :
    (media.rangeExists search).length = 0 ↔ media.Unmapped search.startLba search.length := by
  unfold rangeExists Unmapped
  split
  · rename_i none
    rw [List.find?_eq_none] at none
    refine ⟨fun _ i inside => ?_, fun _ => rfl⟩
    have absent := none i (List.mem_range.mpr inside)
    simpa using absent
  · rename_i i found
    have mapped : (media (search.startLba + i)).isSome = true :=
      List.find?_some (p := fun i => (media (search.startLba + i)).isSome) found
    have member : i < search.length := List.mem_range.mp (List.mem_of_find?_eq_some found)
    have starts : 0 < search.length - i := Nat.sub_pos_of_lt member
    constructor
    · intro empty
      obtain ⟨count, more⟩ := Nat.exists_eq_succ_of_ne_zero (Nat.pos_iff_ne_zero.mp starts)
      simp only [more, List.range_succ_eq_map, List.takeWhile_cons, Nat.add_zero, mapped, if_true,
        List.length_cons] at empty
      omega
    · intro unmapped
      rw [unmapped i member] at mapped
      exact absurd mapped (by simp)

/-- A query on an empty device finds nothing. -/
theorem rangeExists_blank (search : NvmBlockRange) :
    rangeExists (fun _ => none) search = ⟨search.startLba, 0⟩ := by
  have nothing : (List.range search.length).find? (fun i =>
      ((fun _ => none : Media) (search.startLba + i)).isSome) = none := by
    rw [List.find?_eq_none]
    simp
  rw [rangeExists, nothing]

/-- The run found lies in the range. -/
theorem rangeExists_length_le (search : NvmBlockRange) :
    (media.rangeExists search).length ≤ search.length := by
  unfold rangeExists
  split
  · exact Nat.zero_le _
  · rename_i i _
    calc ((List.range (search.length - i)).takeWhile _).length
        ≤ (List.range (search.length - i)).length := (List.takeWhile_sublist _).length_le
      _ = search.length - i := List.length_range
      _ ≤ search.length := Nat.sub_le _ _

/-- A run of mapped sectors at the start of a range is found. -/
theorem rangeExists_run {lba length sectors : Nat} (positive : 0 < sectors)
    (inside : sectors ≤ length) (mapped : ∀ i, i < sectors → (media (lba + i)).isSome) :
    sectors ≤ (media.rangeExists ⟨lba, length⟩).length := by
  have first : (List.range length).find? (fun i => (media (lba + i)).isSome) = some 0 := by
    obtain ⟨count, more⟩ := Nat.exists_eq_succ_of_ne_zero (Nat.ne_of_gt (positive.trans_le inside))
    rw [more, List.range_succ_eq_map, List.find?_cons, mapped 0 positive]
  simp only [rangeExists, first, Nat.sub_zero, Nat.add_zero]
  obtain ⟨rest, split⟩ := Nat.exists_eq_add_of_le inside
  rw [split, List.range_add, List.takeWhile_append_of_pos]
  · simp only [List.length_append, List.length_range]
    exact Nat.le_add_right _ _
  · intro i member
    exact mapped i (List.mem_range.mp member)

/-- Such a run ends before the first unmapped sector behind it. -/
theorem rangeExists_run_ends {lba length sectors : Nat} (positive : 0 < sectors)
    (inside : sectors < length) (mapped : ∀ i, i < sectors → (media (lba + i)).isSome)
    (ends : media (lba + sectors) = none) :
    (media.rangeExists ⟨lba, length⟩).length = sectors := by
  have first : (List.range length).find? (fun i => (media (lba + i)).isSome) = some 0 := by
    obtain ⟨count, more⟩ := Nat.exists_eq_succ_of_ne_zero (Nat.ne_of_gt (positive.trans inside))
    rw [more, List.range_succ_eq_map, List.find?_cons, mapped 0 positive]
  simp only [rangeExists, first, Nat.sub_zero, Nat.add_zero]
  obtain ⟨rest, split⟩ := Nat.exists_eq_add_of_le (Nat.succ_le_of_lt inside)
  rw [split, List.range_add, List.range_succ, List.append_assoc, List.takeWhile_append_of_pos,
    List.singleton_append, List.takeWhile_cons_of_neg (by simp [ends]), List.append_nil,
    List.length_range]
  intro i member
  exact mapped i (List.mem_range.mp member)

/-- What a list starts with depends on the predicate at its members only. -/
theorem takeWhile_congr {p q : Nat → Bool} {list : List Nat}
    (same : ∀ i, i ∈ list → p i = q i) : list.takeWhile p = list.takeWhile q := by
  induction list with
  | nil => rfl
  | cons first rest inductionHypothesis =>
    rw [List.takeWhile_cons, List.takeWhile_cons, same first List.mem_cons_self,
      inductionHypothesis fun i member => same i (List.mem_cons_of_mem _ member)]

/-- A range query depends on the sectors of the range only. -/
theorem rangeExists_congr {other : Media} {lba length : Nat}
    (same : ∀ i, i < length → media (lba + i) = other (lba + i)) :
    media.rangeExists ⟨lba, length⟩ = other.rangeExists ⟨lba, length⟩ := by
  have first : (List.range length).find? (fun i => (media (lba + i)).isSome) =
      (List.range length).find? fun i => (other (lba + i)).isSome := by
    apply List.find?_congr
    intro i member
    rw [same i (List.mem_range.mp member)]
  unfold rangeExists
  simp only [first]
  cases (List.range length).find? fun i => (other (lba + i)).isSome with
  | none => rfl
  | some start =>
    have run : (List.range (length - start)).takeWhile
        (fun j => (media (lba + start + j)).isSome) =
        (List.range (length - start)).takeWhile fun j => (other (lba + start + j)).isSome := by
      apply takeWhile_congr
      intro j member
      have inside : start + j < length := by
        have := List.mem_range.mp member
        omega
      rw [Nat.add_assoc, same _ inside]
    simp only [run]

end Media

end Nvmkv
