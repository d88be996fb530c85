import Nvmkv.LoneRead

/-!
# A delete with no other call in progress

The vectors of `delete_range` follow each other without a gap, whatever the
limits of the device are, so that its batches together trim the range asked
for. A delete that is alone therefore trims the sectors of one slot from the
address of the pair it finds, or leaves the media as it was.
-/

namespace Nvmkv

variable {ι : Type}

namespace Media

variable (media : Media)

/-- A trim of no sectors changes nothing. -/
@[simp] theorem trim_zero (lba : Nat) : media.trim lba 0 = media := by
  funext l
  exact trim_outside (by omega)

/-- Trimming a run and the run behind it trims both. -/
theorem trim_trim (lba first second : Nat) :
    (media.trim lba first).trim (lba + first) second = media.trim lba (first + second) := by
  funext l
  simp only [trim]
  split
  · rw [if_pos (by omega)]
  · split
    · rw [if_pos (by omega)]
    · rw [if_neg (by omega)]

end Media

/-- A length in whole sectors is its own rounding. -/
theorem round_sectors (capabilities : NvmKvStoreCapabilities) (sectors : Nat)
    (bounded : sectors * capabilities.nvmSectorSize < 2 ^ 63) :
    nvmKvRoundUptoBlk (sectors * capabilities.nvmSectorSize) capabilities.nvmSectorSize =
      sectors * capabilities.nvmSectorSize := by
  have positive := capabilities.sector_positive
  have quotient : (sectors * capabilities.nvmSectorSize + (capabilities.nvmSectorSize - 1)) /
      capabilities.nvmSectorSize = sectors := by
    rw [Nat.mul_comm, Nat.mul_add_div positive, Nat.div_eq_of_lt (by omega), Nat.add_zero]
  rw [capabilities.round_upto_sector _ bounded, quotient]

/-- One batch trims a run of sectors from where the ones before it ended. What
remains is zero, or the vectors so far were all of the greatest length and the
next batch starts where this one ended. -/
theorem deleteBatch_spec (capabilities : NvmKvStoreCapabilities) (delLba : Nat) (media : Media)
    (fuel remaining totalIovs : Nat)
    (bounded : remaining * capabilities.nvmSectorSize < 2 ^ 63) :
    ∃ vectors done rest total,
      deleteBatch capabilities delLba fuel (remaining * capabilities.nvmSectorSize) totalIovs =
        (vectors, rest * capabilities.nvmSectorSize, total) ∧
      remaining = done + rest ∧
      media.applyBatch capabilities.nvmSectorSize vectors =
        media.trim (delLba + totalIovs * (capabilities.maxTrimSize / capabilities.nvmSectorSize))
          done ∧
      (0 < rest → total * (capabilities.maxTrimSize / capabilities.nvmSectorSize) =
        totalIovs * (capabilities.maxTrimSize / capabilities.nvmSectorSize) + done) ∧
      (0 < fuel → 0 < remaining → 0 < done) := by
  have positive := capabilities.sector_positive
  obtain ⟨limit, limited⟩ : capabilities.nvmSectorSize ∣ capabilities.maxTrimSize :=
    capabilities.trimSectors
  have limitPositive : 0 < limit := by
    have nonzero : 0 < capabilities.maxTrimSize := capabilities.trimPositive
    rw [limited] at nonzero
    exact Nat.pos_of_mul_pos_left nonzero
  have perVector : capabilities.maxTrimSize / capabilities.nvmSectorSize = limit := by
    rw [limited, Nat.mul_div_cancel_left _ positive]
  rw [perVector]
  induction fuel generalizing media remaining totalIovs with
  | zero => exact ⟨[], 0, remaining, totalIovs, rfl, by omega, by simp, by omega, by omega⟩
  | succ fuel inductionHypothesis =>
    obtain ⟨step, stepped⟩ : ∃ step, step = min limit remaining := ⟨_, rfl⟩
    have discard : (if capabilities.maxTrimSize < remaining * capabilities.nvmSectorSize
        then capabilities.maxTrimSize else remaining * capabilities.nvmSectorSize) =
        step * capabilities.nvmSectorSize := by
      rw [limited, Nat.mul_comm capabilities.nvmSectorSize limit, lesser_sectors positive, stepped,
        Nat.min_comm]
    have rounded : nvmKvRoundUptoBlk (step * capabilities.nvmSectorSize)
        capabilities.nvmSectorSize = step * capabilities.nvmSectorSize := by
      apply round_sectors
      apply Nat.lt_of_le_of_lt _ bounded
      exact Nat.mul_le_mul_right _ (by omega)
    have left : remaining * capabilities.nvmSectorSize - step * capabilities.nvmSectorSize =
        (remaining - step) * capabilities.nvmSectorSize := (Nat.sub_mul _ _ _).symm
    have sectors : step * capabilities.nvmSectorSize / capabilities.nvmSectorSize = step :=
      Nat.mul_div_cancel _ positive
    simp only [deleteBatch, discard, rounded, left, perVector]
    by_cases last : remaining - step = 0
    · rw [if_pos (by rw [last, Nat.zero_mul])]
      refine ⟨_, step, 0, totalIovs + 1, by rw [Nat.zero_mul], by omega, ?_, by omega, by omega⟩
      simp only [Media.applyBatch_cons, Media.applyBatch_nil, Media.applyIovec, sectors]
    · rw [if_neg fun zero => last (by
        rcases Nat.mul_eq_zero.mp zero with none | none
        · exact none
        · omega)]
      have whole : step = limit := by omega
      obtain ⟨vectors, done, rest, total, batch, split, applied, continues, progress⟩ :=
        inductionHypothesis
          (media.trim (delLba + totalIovs * limit) step) (remaining - step) (totalIovs + 1)
          (Nat.lt_of_le_of_lt (Nat.mul_le_mul_right _ (Nat.sub_le _ _)) bounded)
      rw [batch]
      refine ⟨_, step + done, rest, total, rfl, by omega, ?_, ?_, by omega⟩
      · simp only [Media.applyBatch_cons, Media.applyIovec, sectors]
        have next : delLba + (totalIovs + 1) * limit = delLba + totalIovs * limit + step := by
          rw [whole, Nat.add_mul, Nat.one_mul, Nat.add_assoc]
        rw [applied, next, Media.trim_trim]
      · intro more
        rw [continues more, Nat.add_mul, whole]
        omega

/-- The vectors of a batch start in the run that remains to be trimmed. -/
theorem deleteBatch_inside (capabilities : NvmKvStoreCapabilities) {delLba : Nat}
    {vector : NvmIovec} :
    ∀ {fuel remaining totalIovs : Nat}, 0 < remaining →
      vector ∈ (deleteBatch capabilities delLba fuel (remaining * capabilities.nvmSectorSize)
        totalIovs).1 →
      delLba + totalIovs * (capabilities.maxTrimSize / capabilities.nvmSectorSize) ≤
          vector.iovLba ∧
        vector.iovLba < delLba +
          totalIovs * (capabilities.maxTrimSize / capabilities.nvmSectorSize) + remaining := by
  have positive := capabilities.sector_positive
  obtain ⟨limit, limited⟩ : capabilities.nvmSectorSize ∣ capabilities.maxTrimSize :=
    capabilities.trimSectors
  rw [Nat.mul_comm] at limited
  have perVector : capabilities.maxTrimSize / capabilities.nvmSectorSize = limit := by
    rw [limited, Nat.mul_div_cancel _ positive]
  rw [perVector]
  intro fuel
  induction fuel with
  | zero => exact fun _ member => nomatch member
  | succ fuel inductionHypothesis =>
    intro remaining totalIovs more member
    simp only [deleteBatch, perVector] at member
    rw [limited, lesser_sectors positive, ← Nat.sub_mul] at member
    split_ifs at member with last
    · rw [List.mem_singleton.mp member]
      exact ⟨le_rfl, Nat.lt_add_of_pos_right more⟩
    · rcases List.mem_cons.mp member with rfl | later
      · exact ⟨le_rfl, Nat.lt_add_of_pos_right more⟩
      · have left : 0 < remaining - min remaining limit := by
          by_contra none
          exact last (by rw [Nat.eq_zero_of_not_pos none, Nat.zero_mul])
        obtain ⟨lower, upper⟩ := inductionHypothesis left later
        rw [Nat.add_mul, Nat.one_mul] at lower upper
        have whole : min remaining limit = limit := by omega
        rw [whole] at upper
        constructor <;> omega

/-- The vectors of a batch trim. -/
theorem trims_deleteBatch {capabilities : NvmKvStoreCapabilities} {delLba : Nat}
    {vector : NvmIovec} {fuel remaining totalIovs : Nat}
    (member : vector ∈ (deleteBatch capabilities delLba fuel remaining totalIovs).1) :
    vector.iovOpcode = .trim := by
  induction fuel generalizing remaining totalIovs with
  | zero => exact nomatch member
  | succ fuel inductionHypothesis =>
    obtain ⟨discardLen, length⟩ : ∃ discardLen, discardLen =
        if capabilities.maxTrimSize < remaining then capabilities.maxTrimSize else remaining :=
      ⟨_, rfl⟩
    simp only [deleteBatch, ← length] at member
    split at member
    · rw [List.mem_singleton.mp member]
    · rcases List.mem_cons.mp member with first | later
      · rw [first]
      · exact inductionHypothesis later

/-- The sectors that a batch covers remain to be trimmed. On a device with every sector mapped they
are what the batch unmaps. -/
theorem deleteBatch_covers {capabilities : NvmKvStoreCapabilities} {delLba : Nat}
    {fuel remaining totalIovs l : Nat} {vector : NvmIovec}
    (bounded : remaining * capabilities.nvmSectorSize < 2 ^ 63)
    (member : vector ∈ (deleteBatch capabilities delLba fuel
      (remaining * capabilities.nvmSectorSize) totalIovs).1)
    (covered : Media.Covers capabilities.nvmSectorSize vector l) :
    delLba + totalIovs * (capabilities.maxTrimSize / capabilities.nvmSectorSize) ≤ l ∧
      l < delLba + totalIovs * (capabilities.maxTrimSize / capabilities.nvmSectorSize) +
        remaining := by
  obtain ⟨vectors, done, rest, total, batch, split, applied, _⟩ :=
    deleteBatch_spec capabilities delLba (fun _ => some fun _ => 0) fuel remaining totalIovs bounded
  have trims : ∀ vector ∈ vectors, vector.iovOpcode = .trim := fun vector listed =>
    trims_deleteBatch (by rw [batch]; exact listed)
  rw [batch] at member
  have unmapped := @Media.applyBatch_trims (fun _ => some fun _ => 0) _ _ _ trims
    ⟨vector, member, covered⟩
  rw [applied] at unmapped
  by_contra outside
  rw [Media.trim_outside (by omega)] at unmapped
  cases unmapped

/-- The ends of a delete that is alone, with the returned code and the state left
behind. -/
inductive DeleteEffect (store : NvmKvStore) (thread : ι) (poolId : UInt32) (key : List UInt8)
    (buf : Option Region) (allocated : Bool) (state : StoreState ι) :
    Except NvmErrorCode Unit → StoreState ι → Prop where
  | invalid (rejected : keyAccepted state poolId key = false) :
      DeleteEffect store thread poolId key buf allocated state (.error .invalidInput) state
  | unallocated (accepted : keyAccepted state poolId key = true) (none : buf = none) :
      DeleteEffect store thread poolId key buf allocated state (.error .outOfMemory) state
  | absent (accepted : keyAccepted state poolId key = true)
      (found : lookupLba store state.media poolId key = none) :
      DeleteEffect store thread poolId key buf allocated state (.ok ()) state
  | outOfMemory (lba : Nat) (accepted : keyAccepted state poolId key = true)
      (found : lookupLba store state.media poolId key = some lba) (none : allocated = false) :
      DeleteEffect store thread poolId key buf allocated state (.error .outOfMemory) state
  | trimmed (lba : Nat) (batches : List (List NvmIovec))
      (accepted : keyAccepted state poolId key = true)
      (found : lookupLba store state.media poolId key = some lba) :
      DeleteEffect store thread poolId key buf allocated state (.ok ())
        { state with
          media := state.media.trim lba (2 ^ store.valueBits)
          log := state.log ++ batches.map fun batch => (thread, batch) }

section Runs

variable (store : NvmKvStore) (thread : ι)

/-- The batches of `delete_range` together trim the run that remains. Induction
is on the bound of the rounds; each of them trims at least one sector. -/
theorem run_deleteRangeLoop (state : StoreState ι) (delLba fuel remaining totalIovs : Nat)
    (enough : remaining < fuel) (bounded : remaining * store.sectorSize < 2 ^ 63) :
    ∃ batches : List (List NvmIovec),
      (deleteRangeLoop store.capabilities delLba fuel (remaining * store.sectorSize)
        totalIovs).run (answer store thread) state =
      some (.ok (), { state with
        media := state.media.trim (delLba + totalIovs *
          (store.capabilities.maxTrimSize / store.sectorSize)) remaining
        log := state.log ++ batches.map fun batch => (thread, batch) }) := by
  induction fuel generalizing state remaining totalIovs with
  | zero => omega
  | succ fuel inductionHypothesis =>
    obtain ⟨vectors, done, rest, total, batch, split, applied, continues, progress⟩ :=
      deleteBatch_spec store.capabilities delLba state.media store.capabilities.nvmMaxNumIovs
        remaining totalIovs bounded
    have positive := store.sector_positive
    have places := store.capabilities.iovsPositive
    simp only [deleteRangeLoop]
    change deleteBatch store.capabilities delLba store.capabilities.nvmMaxNumIovs
      (remaining * store.sectorSize) totalIovs = _ at batch
    change state.media.applyBatch store.sectorSize vectors = _ at applied
    rw [batch]
    simp only [Program.run_bind, run_nvmWritev, Option.bind_some, applied]
    by_cases finished : rest = 0
    · refine ⟨[vectors], ?_⟩
      subst finished
      simp only [Nat.zero_mul, if_true, Program.run_pure, split, Nat.add_zero]
      rfl
    · have left : ¬rest * store.capabilities.nvmSectorSize = 0 := by
        intro zero
        rcases Nat.mul_eq_zero.mp zero with none | none
        · exact finished none
        · change store.sectorSize = 0 at none
          omega
      have taken : rest ≤ remaining := by omega
      obtain ⟨batches, continued⟩ := inductionHypothesis
        { state with
          media := state.media.trim (delLba + totalIovs *
            (store.capabilities.maxTrimSize / store.capabilities.nvmSectorSize)) done
          log := state.log ++ [(thread, vectors)] }
        rest total (by have := progress places; omega)
        (Nat.lt_of_le_of_lt (Nat.mul_le_mul_right _ taken) bounded)
      refine ⟨vectors :: batches, ?_⟩
      rw [if_neg left]
      change (deleteRangeLoop store.capabilities delLba fuel (rest * store.sectorSize)
        total).run _ _ = _
      rw [continued]
      have next : delLba + total * (store.capabilities.maxTrimSize / store.sectorSize) =
          delLba + totalIovs * (store.capabilities.maxTrimSize / store.sectorSize) + done := by
        rw [Nat.add_assoc]
        exact congrArg (delLba + ·) (continues (by omega))
      have trims := state.media.trim_trim (delLba + totalIovs *
        (store.capabilities.maxTrimSize / store.sectorSize)) done rest
      rw [← next] at trims
      simp only [List.map_cons, List.append_assoc, List.singleton_append, split]
      exact congrArg some (Prod.ext rfl (by
        simp only
        rw [← trims]
        rfl))

/-- The range of a slot is trimmed when the array of vectors is there. -/
theorem run_deleteRange (state : StoreState ι) (delLba : Nat) :
    ∃ batches : List (List NvmIovec),
      (deleteRange store delLba store.delSecCount true).run (answer store thread) state =
      some (.ok (), { state with
        media := state.media.trim delLba (2 ^ store.valueBits)
        log := state.log ++ batches.map fun batch => (thread, batch) }) := by
  have slot : store.delSecCount * store.sectorSize = mKvMaxValueRange := by
    obtain ⟨product, _, _⟩ := store.sector_value_bits
    rw [NvmKvStore.delSecCount_eq, Nat.mul_comm, product]
  have positive := store.sector_positive
  have enough : store.delSecCount < store.delSecCount * store.sectorSize + 1 := by
    have := Nat.le_mul_of_pos_right store.delSecCount positive
    omega
  obtain ⟨batches, ran⟩ := run_deleteRangeLoop store thread state delLba
    (store.delSecCount * store.sectorSize + 1) store.delSecCount 0 enough (by rw [slot]; decide)
  refine ⟨batches, ?_⟩
  rw [deleteRange, if_pos rfl, ran]
  simp only [Nat.zero_mul, Nat.add_zero, NvmKvStore.delSecCount_eq]

/-- Trimming at a free address that is taken and released around it. -/
theorem run_kvDeleteAt (state : StoreState ι) (poolId : UInt32) (key : List UInt8) {lba : Nat}
    (buf : Option Region) (free : state.safeLbaList lba = none) (allocated : Bool) :
    ∃ batches : List (List NvmIovec),
      (kvDeleteAt store poolId key lba buf allocated).run (answer store thread) state =
      some (if allocated then
        (.ok (), { state with
          media := state.media.trim lba (2 ^ store.valueBits)
          log := state.log ++ batches.map fun batch => (thread, batch) })
        else (.error .outOfMemory, state)) := by
  have released : (state.hold thread lba).release lba = state := state.release_hold thread lba free
  have list := congrArg StoreState.safeLbaList released
  simp only [kvDeleteAt, kvDeleteTrim, Program.run_bind,
    run_insertEntry_free store thread state free, Option.bind_some, Bool.false_eq_true, if_false]
  cases allocated with
  | false =>
    refine ⟨[], ?_⟩
    simp only [deleteRange, Bool.false_eq_true, if_false, Program.run_pure, Option.bind_some,
      run_deleteLbaFromSafeList, released]
  | true =>
    obtain ⟨batches, ran⟩ := run_deleteRange store thread (state.hold thread lba) lba
    refine ⟨batches, ?_⟩
    simp only [ran, Option.bind_some, run_deleteLbaFromSafeList, Program.run_pure, if_true]
    simp only [StoreState.release, StoreState.hold] at list ⊢
    rw [list]

/-- A delete that is alone comes to one of its ends. -/
theorem run_kvDelete (noCache : store.cacheSize = 0) (state : StoreState ι)
    (free : ∀ lba, state.safeLbaList lba = none) (poolId : UInt32) (key : List UInt8)
    (buf : Option Region) (allocated : Bool) :
    ∃ result after, (kvDelete store poolId key buf allocated).run (answer store thread) state =
        some (result, after) ∧
      DeleteEffect store thread poolId key buf allocated state result after := by
  have uncached : ¬0 < store.cacheSize := by omega
  cases accepted : keyAccepted state poolId key with
  | false =>
    refine ⟨.error .invalidInput, state, ?_, .invalid accepted⟩
    simp only [keyAccepted, Bool.and_eq_false_iff] at accepted
    simp only [kvDelete, Program.run_bind, run_kvValidatePoolId, Option.bind_some]
    rw [if_pos (by simpa using accepted)]
    rfl
  | true =>
    have valid := accepted
    simp only [keyAccepted, Bool.and_eq_true] at valid
    obtain ⟨pool, validKey⟩ := valid
    obtain ⟨nonempty, short⟩ := of_decide_eq_true validKey
    simp only [kvDelete, Program.run_bind, run_kvValidatePoolId, Option.bind_some, pool, validKey,
      Bool.not_true, Bool.or_self, Bool.false_eq_true, if_false, kvDeleteSync, uncached]
    cases buffer : buf with
    | none => exact ⟨_, _, rfl, .unallocated accepted rfl⟩
    | some region =>
      obtain ⟨result, ran, ends⟩ :=
        run_kvReadMedia_header store thread state poolId region nonempty short
      simp only [kvDeleteSearch, Program.run_bind, ran, Option.bind_some]
      cases found : lookupLba store state.media poolId key with
      | none =>
        rw [found] at ends
        subst ends
        exact ⟨_, _, rfl, .absent accepted found⟩
      | some lba =>
        rw [found] at ends
        obtain ⟨read, returned, keyHash, _⟩ := ends
        subst returned
        subst keyHash
        obtain ⟨batches, trimmed⟩ := run_kvDeleteAt store thread state poolId key
          (some read.buf) (free read.keyHash) allocated
        simp only [trimmed]
        cases allocated with
        | false => exact ⟨_, _, rfl, .outOfMemory _ accepted found rfl⟩
        | true => exact ⟨_, _, rfl, .trimmed _ batches accepted found⟩

end Runs

end Nvmkv
