import Nvmkv.LoneDelete
import Nvmkv.Tilings

/-!
# The vectors of a deleted range

`delete_range` cuts a number of sectors into vectors that the device can trim and sends
them in batches that it can take. The length that remains is carried from vector to vector,
but the address of a vector comes from the count of vectors before it, across all batches,
as if each of them had the greatest length. Only the last one may be shorter, and no vector
comes after it, so that the addresses and the lengths agree.

The loop looks at three numbers of the device only. It is written here over these numbers,
for any sector size that is a power of two; `deleteRange` is the loop at the capabilities
of a store (`deleteRange_eq`). The code counts vectors in 32 bits and addresses in 64; for a
length below 4 GiB from an address below `2 ^ 63` both are enough.
-/

namespace Nvmkv

/-- A device that takes every atomic batch and answers no other call. Its state is what it
was given. -/
def takeBatches : Program.Handler StoreOp StoreRes (List (List NvmIovec))
  | .batchAtomic iovec, batches => some (true, batches ++ [iovec])
  | _, _ => none

/-- The trim vectors of one batch, with `fuel` places left in it, and what remains. -/
def trimBatch (maxTrimSize sectorSize delLba : Nat) :
    (fuel remaining totalIovs : Nat) → List NvmIovec × Nat × Nat
  | 0, remaining, totalIovs => ([], remaining, totalIovs)
  | fuel + 1, remaining, totalIovs =>
      let discardLen := if maxTrimSize < remaining then maxTrimSize else remaining
      let vector : NvmIovec :=
        { iovBase := poolBuffer fun _ => 0
          iovLen := nvmKvRoundUptoBlk discardLen sectorSize
          iovLba := delLba + totalIovs * (maxTrimSize / sectorSize)
          iovOpcode := .trim }
      if remaining - discardLen = 0 then
        ([vector], 0, totalIovs + 1)
      else
        let (vectors, after) :=
          trimBatch maxTrimSize sectorSize delLba fuel (remaining - discardLen) (totalIovs + 1)
        (vector :: vectors, after)

/-- The batches, until nothing remains. Every batch trims at least one byte. -/
def trimRangeLoop (maxNumIovs maxTrimSize sectorSize delLba : Nat) :
    (fuel remaining totalIovs : Nat) → StoreM (Except NvmErrorCode Unit)
  | 0, _, _ => neverReturns
  | fuel + 1, remaining, totalIovs => do
      let (vectors, remaining, totalIovs) :=
        trimBatch maxTrimSize sectorSize delLba maxNumIovs remaining totalIovs
      match ← nvmWritev vectors with
      | .error _ => pure (.error .io)
      | .ok () =>
          if remaining = 0 then
            pure (.ok ())
          else
            trimRangeLoop maxNumIovs maxTrimSize sectorSize delLba fuel remaining totalIovs

/-- Trim a number of sectors from an address on, by the limits of the device. -/
def trimRange (maxNumIovs maxTrimSize sectorSize delLba discardSec : Nat) :
    StoreM (Except NvmErrorCode Unit) :=
  let remaining := discardSec * sectorSize
  trimRangeLoop maxNumIovs maxTrimSize sectorSize delLba (remaining + 1) remaining 0

section Capabilities

variable (capabilities : NvmKvStoreCapabilities) (delLba : Nat)

/-- The batches of a store are cut by its capabilities. Induction is on the places left. -/
theorem deleteBatch_eq (fuel remaining totalIovs : Nat) :
    deleteBatch capabilities delLba fuel remaining totalIovs =
      trimBatch capabilities.maxTrimSize capabilities.nvmSectorSize delLba fuel remaining
        totalIovs := by
  induction fuel generalizing remaining totalIovs with
  | zero => rfl
  | succ fuel inductionHypothesis =>
    simp only [deleteBatch, trimBatch, inductionHypothesis]

/-- So is the whole loop. Induction is on the fuel. -/
theorem deleteRangeLoop_eq (fuel remaining totalIovs : Nat) :
    deleteRangeLoop capabilities delLba fuel remaining totalIovs =
      trimRangeLoop capabilities.nvmMaxNumIovs capabilities.maxTrimSize
        capabilities.nvmSectorSize delLba fuel remaining totalIovs := by
  induction fuel generalizing remaining totalIovs with
  | zero => rfl
  | succ fuel inductionHypothesis =>
    rw [deleteRangeLoop, trimRangeLoop, deleteBatch_eq]
    refine congrArg (nvmWritev _ >>= ·) (funext fun written => ?_)
    cases written with
    | error _ => rfl
    | ok _ => exact if_congr Iff.rfl rfl (inductionHypothesis _ _)

end Capabilities

/-- `delete_range` of a store is the loop at its capabilities. -/
theorem deleteRange_eq (store : NvmKvStore) (delLba discardSec : Nat) :
    deleteRange store delLba discardSec true =
      trimRange store.capabilities.nvmMaxNumIovs store.capabilities.maxTrimSize store.sectorSize
        delLba discardSec :=
  deleteRangeLoop_eq store.capabilities delLba _ _ _

/-- The places of a trim vector are sectors. -/
def TrimmedInOrder (sectorSize first : Nat) (vectors : List NvmIovec) (last : Nat) : Prop :=
  Tiles NvmIovec.iovLba (fun vector => vector.iovLen / sectorSize) first vectors last

/-- A vector that the device can trim: whole sectors, and no more than the limit. -/
def Trimmable (maxTrimSize sectorSize : Nat) (vector : NvmIovec) : Prop :=
  vector.iovOpcode = .trim ∧ sectorSize ∣ vector.iovLen ∧ vector.iovLen ≤ maxTrimSize

section Cutting

variable {bits limit : Nat}

/-- A length in whole sectors below 4 GiB is its own rounding. -/
theorem round_whole {sectors : Nat} (positive : 0 < sectors)
    (bounded : sectors * 2 ^ bits < 2 ^ 32) :
    nvmKvRoundUptoBlk (sectors * 2 ^ bits) (2 ^ bits) = sectors * 2 ^ bits := by
  have sector : 0 < 2 ^ bits := Nat.two_pow_pos bits
  have fits : 2 ^ bits < 2 ^ 32 := (Nat.le_mul_of_pos_left _ positive).trans_lt bounded
  have short : bits < 64 := by
    have less := (Nat.pow_lt_pow_iff_right (by decide)).mp fits
    omega
  have quotient : (sectors * 2 ^ bits + (2 ^ bits - 1)) / 2 ^ bits = sectors := by
    rw [Nat.mul_comm, Nat.mul_add_div sector, Nat.div_eq_of_lt (by omega), Nat.add_zero]
  rw [round_upto_pow _ bits short (by omega), quotient]

/-- One batch tiles a run of sectors behind those that the earlier ones tile. When sectors
remain, all vectors so far have the greatest length. Induction is on the places left. -/
theorem trimBatch_tiles (limited : 0 < limit) (delLba fuel sectors totalIovs : Nat)
    (remains : 0 < sectors) (bounded : sectors * 2 ^ bits < 2 ^ 32) :
    ∃ vectors done rest total,
      trimBatch (limit * 2 ^ bits) (2 ^ bits) delLba fuel (sectors * 2 ^ bits) totalIovs =
        (vectors, rest * 2 ^ bits, total) ∧
      sectors = done + rest ∧
      TrimmedInOrder (2 ^ bits) (delLba + totalIovs * limit) vectors
        (delLba + totalIovs * limit + done) ∧
      (0 < rest → total * limit = totalIovs * limit + done) ∧
      vectors.length ≤ fuel ∧ (∀ vector ∈ vectors, Trimmable (limit * 2 ^ bits) (2 ^ bits) vector) ∧
      (0 < fuel → 0 < done) := by
  have sector : 0 < 2 ^ bits := Nat.two_pow_pos bits
  have perVector : limit * 2 ^ bits / 2 ^ bits = limit := Nat.mul_div_cancel _ sector
  induction fuel generalizing sectors totalIovs with
  | zero =>
    refine ⟨[], 0, sectors, totalIovs, rfl, (Nat.zero_add _).symm, rfl, fun _ => rfl, le_rfl,
      ?_, ?_⟩
    · intro vector absent
      cases absent
    · exact fun none => absurd none (Nat.lt_irrefl 0)
  | succ fuel inductionHypothesis =>
    obtain ⟨step, stepped⟩ : ∃ step, step = min sectors limit := ⟨_, rfl⟩
    have discard : (if limit * 2 ^ bits < sectors * 2 ^ bits then limit * 2 ^ bits
        else sectors * 2 ^ bits) = step * 2 ^ bits := by
      rw [lesser_sectors sector, stepped]
    have within : step * 2 ^ bits ≤ limit * 2 ^ bits := Nat.mul_le_mul_right _ (by omega)
    have rounded : nvmKvRoundUptoBlk (step * 2 ^ bits) (2 ^ bits) = step * 2 ^ bits := by
      apply round_whole (by omega)
      exact (Nat.mul_le_mul_right _ (by omega)).trans_lt bounded
    have left : sectors * 2 ^ bits - step * 2 ^ bits = (sectors - step) * 2 ^ bits :=
      (Nat.sub_mul _ _ _).symm
    have size : step * 2 ^ bits / 2 ^ bits = step := Nat.mul_div_cancel _ sector
    simp only [trimBatch, discard, rounded, left, perVector]
    by_cases last : sectors - step = 0
    · rw [if_pos (by rw [last, Nat.zero_mul])]
      refine ⟨_, step, 0, totalIovs + 1, by rw [Nat.zero_mul], by omega, ?_, by omega, ?_, ?_,
        by omega⟩
      · exact ⟨rfl, by dsimp only; omega, by dsimp only [Tiles]; omega⟩
      · exact Nat.succ_le_succ (Nat.zero_le _)
      · intro vector member
        rw [List.mem_singleton.mp member]
        exact ⟨rfl, Nat.dvd_mul_left _ _, within⟩
    · rw [if_neg fun zero => last ((Nat.mul_eq_zero.mp zero).resolve_right sector.ne')]
      have whole : step = limit := by omega
      obtain ⟨vectors, done, rest, total, batch, split, tiled, continues, few, trims, _⟩ :=
        inductionHypothesis (sectors - step) (totalIovs + 1) (by omega)
          ((Nat.mul_le_mul_right _ (Nat.sub_le _ _)).trans_lt bounded)
      rw [Nat.add_mul, Nat.one_mul] at tiled continues
      rw [batch]
      refine ⟨_, step + done, rest, total, rfl, by omega, ?_, by omega,
        Nat.succ_le_succ few, ?_, by omega⟩
      · refine ⟨rfl, by dsimp only; omega, ?_⟩
        dsimp only
        rw [size, whole, ← Nat.add_assoc, Nat.add_assoc delLba]
        exact tiled
      · intro vector member
        rcases List.mem_cons.mp member with rfl | later
        · exact ⟨rfl, Nat.dvd_mul_left _ _, within⟩
        · exact trims vector later

/-- The batches together tile the sectors that remain, and the loop ends with success.
Induction is on the fuel; every batch takes at least one sector. -/
theorem run_trimRangeLoop (limited : 0 < limit) {maxNumIovs : Nat} (iovs : 0 < maxNumIovs)
    (delLba fuel sectors totalIovs : Nat) (given : List (List NvmIovec)) (remains : 0 < sectors)
    (bounded : sectors * 2 ^ bits < 2 ^ 32) (enough : sectors < fuel) :
    ∃ batches,
      (trimRangeLoop maxNumIovs (limit * 2 ^ bits) (2 ^ bits) delLba fuel (sectors * 2 ^ bits)
        totalIovs).run takeBatches given = some (.ok (), given ++ batches) ∧
      TrimmedInOrder (2 ^ bits) (delLba + totalIovs * limit) batches.flatten
        (delLba + totalIovs * limit + sectors) ∧
      (∀ vector ∈ batches.flatten, Trimmable (limit * 2 ^ bits) (2 ^ bits) vector) ∧
      ∀ batch ∈ batches, batch.length ≤ maxNumIovs := by
  have sector : 0 < 2 ^ bits := Nat.two_pow_pos bits
  induction fuel generalizing sectors totalIovs given with
  | zero => omega
  | succ fuel inductionHypothesis =>
    obtain ⟨vectors, done, rest, total, batch, split, tiled, continues, few, trims, progress⟩ :=
      trimBatch_tiles limited delLba maxNumIovs sectors totalIovs remains bounded
    have more := progress iovs
    have sent : (nvmWritev vectors).run takeBatches given =
        some (.ok (), given ++ [vectors]) := rfl
    simp only [trimRangeLoop, batch, Program.run_bind, sent, Option.bind_some]
    by_cases last : rest = 0
    · have all : done = sectors := by omega
      rw [if_pos (by rw [last, Nat.zero_mul]), Program.run_pure]
      refine ⟨[vectors], rfl, ?_, ?_, ?_⟩
      · rw [List.flatten_singleton, ← all]
        exact tiled
      · rw [List.flatten_singleton]
        exact trims
      · intro one member
        rw [List.mem_singleton.mp member]
        exact few
    · rw [if_neg fun zero => last ((Nat.mul_eq_zero.mp zero).resolve_right sector.ne')]
      obtain ⟨batches, ran, tiledRest, trimsRest, fewRest⟩ :=
        inductionHypothesis rest total (given ++ [vectors]) (by omega)
          ((Nat.mul_le_mul_right _ (by omega)).trans_lt bounded) (by omega)
      rw [continues (by omega), ← Nat.add_assoc] at tiledRest
      refine ⟨vectors :: batches, ?_, ?_, ?_, ?_⟩
      · rw [ran, List.append_assoc, List.singleton_append]
      · rw [List.flatten_cons]
        have joined := tiled.append tiledRest
        rw [Nat.add_assoc _ done rest, ← split] at joined
        exact joined
      · intro vector member
        rw [List.flatten_cons] at member
        rcases List.mem_append.mp member with first | later
        · exact trims vector first
        · exact trimsRest vector later
      · intro one member
        rcases List.mem_cons.mp member with rfl | later
        · exact few
        · exact fewRest one later

/-- Whole vectors from the first address on, so many that they tile the sectors asked for, are
what `delete_range` hands to the device before it ends with success. -/
theorem run_trimRange {maxNumIovs maxTrimSize : Nat} (delLba discardSec : Nat)
    (sectors : 0 < discardSec) (bounded : discardSec * 2 ^ bits < 2 ^ 32) (iovs : 0 < maxNumIovs)
    (limited : 0 < maxTrimSize) (whole : 2 ^ bits ∣ maxTrimSize) :
    ∃ batches : List (List NvmIovec),
      (trimRange maxNumIovs maxTrimSize (2 ^ bits) delLba discardSec).run takeBatches [] =
        some (.ok (), batches) ∧
      TrimmedInOrder (2 ^ bits) delLba batches.flatten (delLba + discardSec) ∧
      (∀ vector ∈ batches.flatten, Trimmable maxTrimSize (2 ^ bits) vector) ∧
      ∀ batch ∈ batches, batch.length ≤ maxNumIovs := by
  obtain ⟨limit, rfl⟩ := whole
  rw [Nat.mul_comm] at limited ⊢
  have sector : 0 < 2 ^ bits := Nat.two_pow_pos bits
  have enough : discardSec ≤ discardSec * 2 ^ bits := Nat.le_mul_of_pos_right _ sector
  obtain ⟨batches, ran, tiled, trims, few⟩ :=
    run_trimRangeLoop (Nat.pos_of_mul_pos_right limited) iovs delLba (discardSec * 2 ^ bits + 1)
      discardSec 0 [] sectors bounded (by omega)
  rw [Nat.zero_mul, Nat.add_zero] at tiled
  exact ⟨batches, ran, tiled, trims, few⟩

end Cutting

/-- The `delete_range` of a store trims every sector of its range once and no other sector, within
the limits of the device: its capabilities are in whole sectors and not zero. -/
theorem deleteRange_covers (store : NvmKvStore) (delLba discardSec : Nat) (sectors : 0 < discardSec)
    (bounded : discardSec * store.sectorSize < 2 ^ 32) :
    ∃ batches : List (List NvmIovec),
      (deleteRange store delLba discardSec true).run takeBatches [] = some (.ok (), batches) ∧
      (∀ l, batches.flatten.countP (fun vector => Media.Covers store.sectorSize vector l) =
        if delLba ≤ l ∧ l < delLba + discardSec then 1 else 0) ∧
      (∀ vector ∈ batches.flatten,
        Trimmable store.capabilities.maxTrimSize store.sectorSize vector) ∧
      ∀ batch ∈ batches, batch.length ≤ store.capabilities.nvmMaxNumIovs := by
  obtain ⟨bits, _, _, size⟩ := store.capabilities.sector_pow
  have sector : store.sectorSize = 2 ^ bits := size
  have whole : 2 ^ bits ∣ store.capabilities.maxTrimSize := size ▸ store.capabilities.trimSectors
  rw [deleteRange_eq]
  rw [sector] at bounded ⊢
  obtain ⟨batches, ran, tiled, trims, few⟩ := run_trimRange delLba discardSec sectors bounded
    store.capabilities.iovsPositive store.capabilities.trimPositive whole
  exact ⟨batches, ran, tiled.covered_once, trims, few⟩

/-- `delete_range` ends with success. Its vectors in order are adjacent, lie apart, and cover
each of the sectors asked for once and no other sector; none is longer than the device can
trim, and no batch has more vectors than the device takes. Neither the count of vectors nor
an address wraps. -/
theorem trimRange_covers (maxNumIovs maxTrimSize bits delLba discardSec : Nat)
    (starts : delLba < 2 ^ 63) (sectors : 0 < discardSec)
    (bounded : discardSec * 2 ^ bits < 2 ^ 32) (iovs : 1 ≤ maxNumIovs)
    (limited : 0 < maxTrimSize) (whole : 2 ^ bits ∣ maxTrimSize) :
    ∃ batches : List (List NvmIovec),
      (trimRange maxNumIovs maxTrimSize (2 ^ bits) delLba discardSec).run takeBatches [] =
        some (.ok (), batches) ∧
      TrimmedInOrder (2 ^ bits) delLba batches.flatten (delLba + discardSec) ∧
      (batches.flatten.Pairwise fun before behind =>
        before.iovLba + before.iovLen / 2 ^ bits ≤ behind.iovLba) ∧
      (∀ l, batches.flatten.countP (fun vector => Media.Covers (2 ^ bits) vector l) =
        if delLba ≤ l ∧ l < delLba + discardSec then 1 else 0) ∧
      (∀ vector ∈ batches.flatten, Trimmable maxTrimSize (2 ^ bits) vector) ∧
      (∀ batch ∈ batches, batch.length ≤ maxNumIovs) ∧
      batches.flatten.length < 2 ^ 32 ∧ ∀ vector ∈ batches.flatten, vector.iovLba < 2 ^ 64 := by
  have enough : discardSec ≤ discardSec * 2 ^ bits :=
    Nat.le_mul_of_pos_right _ (Nat.two_pow_pos bits)
  obtain ⟨batches, ran, tiled, trims, few⟩ :=
    run_trimRange delLba discardSec sectors bounded iovs limited whole
  have count := tiled.length_le
  refine ⟨batches, ran, tiled, tiled.apart, tiled.covered_once, trims, few, by omega, ?_⟩
  intro vector member
  have ends := Nat.le_of_add_right_le (tiled.inside member).2
  omega

/-- Three sectors of 512 bytes in vectors of two, one vector a batch. -/
theorem trimRange_covers_three :
    ∃ batches : List (List NvmIovec),
      (trimRange 1 1024 (2 ^ 9) 7 3).run takeBatches [] = some (.ok (), batches) ∧
      TrimmedInOrder (2 ^ 9) 7 batches.flatten (7 + 3) ∧
      (batches.flatten.Pairwise fun before behind =>
        before.iovLba + before.iovLen / 2 ^ 9 ≤ behind.iovLba) ∧
      (∀ l, batches.flatten.countP (fun vector => Media.Covers (2 ^ 9) vector l) =
        if 7 ≤ l ∧ l < 7 + 3 then 1 else 0) ∧
      (∀ vector ∈ batches.flatten, Trimmable 1024 (2 ^ 9) vector) ∧
      (∀ batch ∈ batches, batch.length ≤ 1) ∧
      batches.flatten.length < 2 ^ 32 ∧ ∀ vector ∈ batches.flatten, vector.iovLba < 2 ^ 64 :=
  trimRange_covers 1 1024 9 7 3 (by decide) (by decide) (by decide) (by decide) (by decide)
    (by decide)

end Nvmkv
