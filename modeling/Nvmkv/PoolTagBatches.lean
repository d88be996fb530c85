import Nvmkv.CreationCrash
import Nvmkv.DeleteRanges

/-!
# The writes of the pool tags and the limits of the device

`persist_pool_tags` cuts the tags into vectors of the greatest length and fills one write
after the other with them. A write is closed when it has as many vectors as the device
takes, or when its length has reached the limit of an atomic write. The length is tested
before the next vector is added and not with it, so that a write may pass the limit by less
than one vector.

The tags come to their places on the media all the same, each byte once. No write passes
the limit just when the limit is a multiple of the vectors' length, or the vectors that a
write may have do not reach it, or the tags as a whole do not.

Numbers of the device are narrowed where the code does: the number of vectors to an `int`,
the other limits to 32 bits. A number of vectors that is not positive as an `int` leaves
the code in a loop that writes nothing.
-/

namespace Nvmkv

/-- The sector of the media where the tags start (`get_pool_tags_lba`). -/
def NvmKvStore.poolTagsLba (store : NvmKvStore) : Nat := mKvMaxValueRange / store.sectorSize

/-- The vectors of one write, which the code keeps in an `int`. -/
def NvmKvStore.maxTagIovs (store : NvmKvStore) : Int :=
  Int.bmod store.capabilities.nvmMaxNumIovs (2 ^ 32)

/-- The greatest length of a vector, in 32 bits. -/
def NvmKvStore.maxTagVector (store : NvmKvStore) : Nat := store.capabilities.maxWriteSize % 2 ^ 32

/-- The vectors of one write of the tags at `poolTags`, with the length that remains and the
count of vectors so far. `places` is the number that may still be filled. -/
def tagVectors (store : NvmKvStore) (poolTags : Memory) (maxTotalSize : Nat) :
    (places remainingLen count totalLenPerWrite : Nat) → List NvmIovec × Nat × Nat
  | 0, remainingLen, count, _ => ([], remainingLen, count)
  | places + 1, remainingLen, count, totalLenPerWrite =>
      let maxWriteSizePerIov := store.maxTagVector
      if remainingLen ≠ 0 ∧ totalLenPerWrite < maxTotalSize then
        let vectorSize :=
          if remainingLen < maxWriteSizePerIov then remainingLen else maxWriteSizePerIov
        let vector : NvmIovec :=
          { iovBase :=
              { address := poolTags.address + count * maxWriteSizePerIov
                bytes := poolTags.bytes.drop (count * maxWriteSizePerIov) }
            iovLen := vectorSize
            iovLba := store.poolTagsLba + count * (maxWriteSizePerIov / store.sectorSize)
            iovOpcode := .write }
        let (vectors, left) := tagVectors store poolTags maxTotalSize places
          (remainingLen - vectorSize) (count + 1) (totalLenPerWrite + vectorSize)
        (vector :: vectors, left)
      else ([], remainingLen, count)

/-- The writes of the tags until no length remains. A write that has a vector takes at least
one byte, which bounds their number. -/
def persistTagsLoop (store : NvmKvStore) (poolTags : Memory) (maxNumIovs maxTotalSize : Nat) :
    (fuel remainingLen count : Nat) → StoreM (Except NvmErrorCode Unit)
  | 0, _, _ => neverReturns
  | fuel + 1, remainingLen, count =>
      if remainingLen = 0 then
        pure (.ok ())
      else do
        let (iov, remainingLen, count) :=
          tagVectors store poolTags maxTotalSize maxNumIovs remainingLen count 0
        match ← nvmWritev iov with
        | .error code => pure (.error code)
        | .ok () => persistTagsLoop store poolTags maxNumIovs maxTotalSize fuel remainingLen count

/-- Write all tags (`persist_pool_tags`). -/
def persistTags (store : NvmKvStore) (poolTags : Memory) (maxTotalSize : Nat) :
    StoreM (Except NvmErrorCode Unit) :=
  persistTagsLoop store poolTags store.maxTagIovs.toNat (maxTotalSize % 2 ^ 32)
    (store.poolTagsLen + 1) store.poolTagsLen 0

/-- A vector brings bytes of the tags to their own place on the media. -/
def ToOwnPlace (store : NvmKvStore) (poolTags : Memory) (vector : NvmIovec) : Prop :=
  vector.iovOpcode = .write ∧ ∃ offset,
    vector.iovBase = ⟨poolTags.address + offset, poolTags.bytes.drop offset⟩ ∧
      vector.iovLba * store.sectorSize = store.poolTagsLba * store.sectorSize + offset

/-- The vectors write a run of bytes of the media in order, each byte once. -/
def WritesInOrder (store : NvmKvStore) (first : Nat) (vectors : List NvmIovec) (last : Nat) :
    Prop :=
  Tiles (fun vector => vector.iovLba * store.sectorSize) NvmIovec.iovLen first vectors last

/-- The bytes that an atomic write carries. -/
def writeLen (iov : List NvmIovec) : Nat := (iov.map NvmIovec.iovLen).sum

section Vectors

variable {store : NvmKvStore}

/-- A limit below `2 ^ 31` is taken as it is. -/
theorem maxTagVector_eq (short : store.capabilities.maxWriteSize < 2 ^ 31) :
    store.maxTagVector = store.capabilities.maxWriteSize :=
  Nat.mod_eq_of_lt (by omega)

/-- The lengths and places of the vectors are those of `fillPoolTags`, over which crashes of a
creation are stated. -/
theorem tagVectors_places (short : store.capabilities.maxWriteSize < 2 ^ 31) (poolTags : Memory)
    (maxTotalSize places remainingLen count totalLen : Nat) :
    fillPoolTags store maxTotalSize places remainingLen count totalLen =
      let (vectors, left) :=
        tagVectors store poolTags maxTotalSize places remainingLen count totalLen
      (vectors.map fun vector => (vector.iovBase.address - poolTags.address, vector.iovLen),
        left) := by
  induction places generalizing remainingLen count totalLen with
  | zero => rfl
  | succ places inductionHypothesis =>
    simp only [fillPoolTags, tagVectors, maxTagVector_eq short, inductionHypothesis]
    split
    · simp only [List.map_cons, Nat.add_sub_cancel_left]
    · rfl

variable {poolTags : Memory} {maxTotalSize : Nat}

/-- Nothing is left to write. -/
theorem tagVectors_none (places count totalLen : Nat) :
    tagVectors store poolTags maxTotalSize places 0 count totalLen = ([], 0, count) := by
  cases places with
  | zero => rfl
  | succ places => rw [tagVectors, if_neg fun fills => fills.1 rfl]

/-- One write takes a run of bytes from its start on, in vectors that go to their own
places. While length remains, the vectors so far all have the greatest length. Induction is
on the places left; a vector has the greatest length when more is behind it, and is the last
one otherwise. -/
theorem tagVectors_writes (short : store.capabilities.maxWriteSize < 2 ^ 31)
    (places remainingLen count totalLen : Nat) :
    ∃ vectors taken next,
      tagVectors store poolTags maxTotalSize places remainingLen count totalLen =
        (vectors, remainingLen - taken, next) ∧
      taken ≤ remainingLen ∧
      WritesInOrder store (store.poolTagsLba * store.sectorSize + count * store.maxTagVector)
        vectors (store.poolTagsLba * store.sectorSize + count * store.maxTagVector + taken) ∧
      (taken < remainingLen → next * store.maxTagVector = count * store.maxTagVector + taken) ∧
      vectors.length ≤ places ∧ (∀ vector ∈ vectors, ToOwnPlace store poolTags vector) ∧
      (0 < places → 0 < remainingLen → totalLen < maxTotalSize → 0 < taken) := by
  have positive : 0 < store.maxTagVector := by
    rw [maxTagVector_eq short]
    exact store.capabilities.writePositive
  have sectors : store.maxTagVector / store.sectorSize * store.sectorSize = store.maxTagVector := by
    rw [maxTagVector_eq short]
    exact Nat.div_mul_cancel store.capabilities.writeSectors
  induction places generalizing remainingLen count totalLen with
  | zero =>
    refine ⟨[], 0, count, rfl, Nat.zero_le _, rfl, fun _ => rfl, le_rfl, ?_, ?_⟩
    · intro vector absent
      cases absent
    · exact fun none => absurd none (Nat.lt_irrefl 0)
  | succ places inductionHypothesis =>
    by_cases fills : remainingLen ≠ 0 ∧ totalLen < maxTotalSize
    · have place : (store.poolTagsLba + count * (store.maxTagVector / store.sectorSize)) *
          store.sectorSize = store.poolTagsLba * store.sectorSize + count * store.maxTagVector := by
        rw [Nat.add_mul, Nat.mul_assoc, sectors]
      by_cases more : store.maxTagVector < remainingLen
      · obtain ⟨vectors, taken, next, filled, inside, tiled, further, few, own, _⟩ :=
          inductionHypothesis (remainingLen - store.maxTagVector) (count + 1)
            (totalLen + store.maxTagVector)
        rw [Nat.succ_mul] at tiled further
        simp only [tagVectors, if_pos fills, if_neg (Nat.not_lt_of_lt more), filled]
        refine ⟨_, store.maxTagVector + taken, next, by rw [Nat.sub_sub], by omega, ?_, by omega,
          ?_, ?_, by omega⟩
        · refine ⟨place, positive, ?_⟩
          dsimp only
          rw [← Nat.add_assoc] at tiled
          rw [← Nat.add_assoc]
          exact tiled
        · exact Nat.succ_le_succ few
        · intro vector member
          rcases List.mem_cons.mp member with rfl | later
          · exact ⟨rfl, _, rfl, place⟩
          · exact own vector later
      · have last : (if remainingLen < store.maxTagVector then remainingLen
            else store.maxTagVector) = remainingLen := by
          split <;> omega
        simp only [tagVectors, if_pos fills, last, Nat.sub_self, tagVectors_none]
        refine ⟨_, remainingLen, count + 1, by rw [Nat.sub_self], le_rfl, ?_, by omega, ?_, ?_,
          by omega⟩
        · exact ⟨place, Nat.pos_of_ne_zero fills.1, rfl⟩
        · exact Nat.succ_le_succ (Nat.zero_le _)
        · intro vector member
          rw [List.mem_singleton.mp member]
          exact ⟨rfl, _, rfl, place⟩
    · simp only [tagVectors, if_neg fills]
      refine ⟨[], 0, count, rfl, Nat.zero_le _, rfl, fun _ => rfl, Nat.zero_le _, ?_, ?_⟩
      · intro vector absent
        cases absent
      · intro _ remains room
        exact absurd ⟨Nat.ne_of_gt remains, room⟩ fills

/-- What keeps the write that is being filled below the limit of an atomic write: its length
and the limit are multiples of the greatest vector, the places left do not reach the limit,
or the tags left do not. -/
def KeepsBelow (store : NvmKvStore) (maxTotalSize places remainingLen totalLen : Nat) : Prop :=
  (store.maxTagVector ∣ maxTotalSize ∧ store.maxTagVector ∣ totalLen) ∨
    totalLen + places * store.maxTagVector ≤ maxTotalSize ∨ totalLen + remainingLen ≤ maxTotalSize

/-- Under this condition the next vector has room as well. -/
theorem KeepsBelow.next_fits {places remainingLen totalLen size : Nat}
    (keeps : KeepsBelow store maxTotalSize (places + 1) remainingLen totalLen)
    (room : totalLen < maxTotalSize) (vector : size ≤ store.maxTagVector)
    (left : size ≤ remainingLen) : totalLen + size ≤ maxTotalSize := by
  rcases keeps with ⟨⟨vectors, limit⟩, ⟨filled, length⟩⟩ | few | short
  · have next : filled + 1 ≤ vectors := by
      apply Nat.lt_of_mul_lt_mul_left (a := store.maxTagVector)
      omega
    have whole := Nat.mul_le_mul_left store.maxTagVector next
    rw [Nat.mul_succ] at whole
    omega
  · rw [Nat.succ_mul] at few
    omega
  · omega

/-- Under this condition a write does not pass the limit. Induction is on the places left. -/
theorem tagVectors_below {places remainingLen count totalLen : Nat}
    (keeps : KeepsBelow store maxTotalSize places remainingLen totalLen)
    (starts : totalLen ≤ maxTotalSize) :
    totalLen + writeLen (tagVectors store poolTags maxTotalSize places remainingLen count
      totalLen).1 ≤ maxTotalSize := by
  induction places generalizing remainingLen count totalLen with
  | zero => exact starts
  | succ places inductionHypothesis =>
    by_cases fills : remainingLen ≠ 0 ∧ totalLen < maxTotalSize
    · by_cases more : store.maxTagVector < remainingLen
      · simp only [tagVectors, if_pos fills, if_neg (Nat.not_lt_of_lt more), writeLen,
          List.map_cons, List.sum_cons]
        rw [← Nat.add_assoc]
        apply inductionHypothesis
        · rcases keeps with ⟨limit, length⟩ | few | short
          · exact Or.inl ⟨limit, Nat.dvd_add length (Nat.dvd_refl _)⟩
          · rw [Nat.succ_mul] at few
            exact Or.inr (Or.inl (by omega))
          · exact Or.inr (Or.inr (by omega))
        · exact keeps.next_fits fills.2 le_rfl more.le
      · have last : (if remainingLen < store.maxTagVector then remainingLen
            else store.maxTagVector) = remainingLen := by
          split <;> omega
        simp only [tagVectors, if_pos fills, last, Nat.sub_self, tagVectors_none]
        exact keeps.next_fits fills.2 (Nat.le_of_not_lt more) le_rfl
    · simp only [tagVectors, if_neg fills]
      exact starts

/-- Otherwise a write that starts with whole vectors below the limit passes it. -/
theorem tagVectors_passes {places remainingLen count totalLen : Nat}
    (uneven : ¬store.maxTagVector ∣ maxTotalSize) (length : store.maxTagVector ∣ totalLen)
    (starts : totalLen < maxTotalSize)
    (enough : maxTotalSize < totalLen + places * store.maxTagVector)
    (left : maxTotalSize < totalLen + remainingLen) :
    maxTotalSize < totalLen + writeLen (tagVectors store poolTags maxTotalSize places remainingLen
      count totalLen).1 := by
  induction places generalizing remainingLen count totalLen with
  | zero => omega
  | succ places inductionHypothesis =>
    have fills : remainingLen ≠ 0 ∧ totalLen < maxTotalSize := ⟨by omega, starts⟩
    rw [Nat.succ_mul] at enough
    by_cases more : store.maxTagVector < remainingLen
    · simp only [tagVectors, if_pos fills, if_neg (Nat.not_lt_of_lt more), writeLen, List.map_cons,
        List.sum_cons]
      rw [← Nat.add_assoc]
      have next : store.maxTagVector ∣ totalLen + store.maxTagVector :=
        Nat.dvd_add length (Nat.dvd_refl _)
      rcases Nat.lt_trichotomy (totalLen + store.maxTagVector) maxTotalSize with below | same | past
      · exact inductionHypothesis next below (by omega) (by omega)
      · rw [same] at next
        exact absurd next uneven
      · omega
    · have last : (if remainingLen < store.maxTagVector then remainingLen
          else store.maxTagVector) = remainingLen := by
        split <;> omega
      simp only [tagVectors, if_pos fills, last, Nat.sub_self, tagVectors_none]
      exact left

/-- The writes together bring the bytes that remain to their places, and the loop ends with
success; its first write is the first one of `tagVectors`. Induction is on the fuel. -/
theorem run_persistTagsLoop (short : store.capabilities.maxWriteSize < 2 ^ 31)
    {maxNumIovs : Nat} (iovs : 0 < maxNumIovs) (carries : 0 < maxTotalSize)
    (fuel remainingLen count : Nat) (given : List (List NvmIovec))
    (enough : remainingLen < fuel) :
    ∃ batches,
      (persistTagsLoop store poolTags maxNumIovs maxTotalSize fuel remainingLen count).run
        takeBatches given = some (.ok (), given ++ batches) ∧
      WritesInOrder store (store.poolTagsLba * store.sectorSize + count * store.maxTagVector)
        batches.flatten
        (store.poolTagsLba * store.sectorSize + count * store.maxTagVector + remainingLen) ∧
      (∀ vector ∈ batches.flatten, ToOwnPlace store poolTags vector) ∧
      (∀ batch ∈ batches, ∃ length done,
        length ≤ remainingLen ∧
          batch = (tagVectors store poolTags maxTotalSize maxNumIovs length done 0).1) ∧
      (0 < remainingLen →
        (tagVectors store poolTags maxTotalSize maxNumIovs remainingLen count 0).1 ∈ batches) := by
  induction fuel generalizing remainingLen count given with
  | zero => omega
  | succ fuel inductionHypothesis =>
    by_cases empty : remainingLen = 0
    · rw [persistTagsLoop, if_pos empty, Program.run_pure]
      refine ⟨[], by rw [List.append_nil], by rw [empty]; rfl, ?_, ?_, by omega⟩
      · intro vector absent
        cases absent
      · intro batch absent
        cases absent
    · obtain ⟨vectors, taken, next, filled, inside, tiled, further, _, own, progress⟩ :=
        @tagVectors_writes store poolTags maxTotalSize short maxNumIovs remainingLen count 0
      have more := progress iovs (Nat.pos_of_ne_zero empty) carries
      have sent : (nvmWritev vectors).run takeBatches given =
          some (.ok (), given ++ [vectors]) := rfl
      obtain ⟨batches, ran, tiledRest, ownRest, fromRest, _⟩ :=
        inductionHypothesis (remainingLen - taken) next (given ++ [vectors]) (by omega)
      rw [persistTagsLoop, if_neg empty, filled]
      simp only [Program.run_bind, sent, Option.bind_some]
      refine ⟨vectors :: batches, ?_, ?_, ?_, ?_, fun _ => List.mem_cons_self⟩
      · rw [ran, List.append_assoc, List.singleton_append]
      · rw [List.flatten_cons]
        by_cases last : taken < remainingLen
        · rw [further last, ← Nat.add_assoc] at tiledRest
          have joined := tiled.append tiledRest
          rw [Nat.add_assoc _ taken, Nat.add_sub_cancel' inside] at joined
          exact joined
        · have all : taken = remainingLen := by omega
          rw [all, Nat.sub_self, Nat.add_zero] at tiledRest
          rw [all] at tiled
          rw [tiledRest.eq_nil, List.append_nil]
          exact tiled
      · intro vector member
        rw [List.flatten_cons] at member
        rcases List.mem_append.mp member with first | later
        · exact own vector first
        · exact ownRest vector later
      · intro batch member
        rcases List.mem_cons.mp member with rfl | later
        · exact ⟨remainingLen, count, le_rfl, by rw [filled]⟩
        · obtain ⟨length, done, less, same⟩ := fromRest batch later
          exact ⟨length, done, by omega, same⟩

/-- With no place for a vector the loop writes nothing for ever. -/
theorem run_persistTagsLoop_stuck {remainingLen : Nat} (left : 0 < remainingLen)
    (fuel count : Nat) (given : List (List NvmIovec)) :
    (persistTagsLoop store poolTags 0 maxTotalSize fuel remainingLen count).run takeBatches given =
      none := by
  induction fuel generalizing count given with
  | zero => rfl
  | succ fuel inductionHypothesis =>
    have sent : (nvmWritev []).run takeBatches given = some (.ok (), given ++ [[]]) := rfl
    rw [persistTagsLoop, if_neg (by omega), tagVectors]
    simp only [Program.run_bind, sent, Option.bind_some]
    exact inductionHypothesis count (given ++ [[]])

/-- A number of vectors that an `int` holds is taken as it is. -/
theorem maxTagIovs_eq (fits : store.capabilities.nvmMaxNumIovs < 2 ^ 31) :
    store.maxTagIovs = store.capabilities.nvmMaxNumIovs := by
  unfold NvmKvStore.maxTagIovs
  apply Int.bmod_eq_of_le_mul_two <;> omega

/-- The writes of the loop bring the bytes to the places of `persistPoolTagsLoop`, write for
write. Induction is on the fuel of the one; that of the other suffices as well, for every
write takes a byte. -/
theorem persistTagsLoop_places (short : store.capabilities.maxWriteSize < 2 ^ 31)
    (iovs : 0 < store.capabilities.nvmMaxNumIovs) (carries : 0 < maxTotalSize)
    (fuel steps remainingLen count : Nat) (given : List (List NvmIovec))
    (enough : remainingLen < fuel) (bounded : remainingLen ≤ steps) :
    ∃ batches,
      (persistTagsLoop store poolTags store.capabilities.nvmMaxNumIovs maxTotalSize fuel
        remainingLen count).run takeBatches given = some (.ok (), given ++ batches) ∧
      batches.map (List.map fun vector =>
          (vector.iovBase.address - poolTags.address, vector.iovLen)) =
        persistPoolTagsLoop store maxTotalSize steps remainingLen count := by
  induction fuel generalizing steps remainingLen count given with
  | zero => omega
  | succ fuel inductionHypothesis =>
    by_cases empty : remainingLen = 0
    · subst empty
      refine ⟨[], by rw [persistTagsLoop, if_pos rfl, Program.run_pure, List.append_nil], ?_⟩
      cases steps with
      | zero => rfl
      | succ steps => rw [persistPoolTagsLoop, if_pos rfl, List.map_nil]
    · obtain ⟨steps, rfl⟩ : ∃ fewer, steps = fewer + 1 := ⟨steps - 1, by omega⟩
      obtain ⟨vectors, taken, next, filled, inside, _, _, _, _, progress⟩ :=
        @tagVectors_writes store poolTags maxTotalSize short store.capabilities.nvmMaxNumIovs
          remainingLen count 0
      have more := progress iovs (Nat.pos_of_ne_zero empty) carries
      have sent : (nvmWritev vectors).run takeBatches given =
          some (.ok (), given ++ [vectors]) := rfl
      obtain ⟨batches, ran, places⟩ := inductionHypothesis steps (remainingLen - taken) next
        (given ++ [vectors]) (by omega) (by omega)
      refine ⟨vectors :: batches, ?_, ?_⟩
      · rw [persistTagsLoop, if_neg empty, filled]
        simp only [Program.run_bind, sent, Option.bind_some]
        rw [ran, List.append_assoc, List.singleton_append]
      · rw [persistPoolTagsLoop, if_neg empty, tagVectors_places short poolTags, filled,
          List.map_cons, places]

/-- The writes over which crashes of a creation are stated are those that `persist_pool_tags`
hands to the device. -/
theorem persistTags_places (short : store.capabilities.maxWriteSize < 2 ^ 31)
    (iovs : 0 < store.capabilities.nvmMaxNumIovs)
    (fits : store.capabilities.nvmMaxNumIovs < 2 ^ 31) (carries : 0 < maxTotalSize)
    (total : maxTotalSize < 2 ^ 32) :
    ∃ batches, (persistTags store poolTags maxTotalSize).run takeBatches [] =
        some (.ok (), batches) ∧
      batches.map (List.map fun vector =>
          (vector.iovBase.address - poolTags.address, vector.iovLen)) =
        persistPoolTags store ⟨maxTotalSize, carries⟩ := by
  unfold persistTags
  rw [Nat.mod_eq_of_lt total, maxTagIovs_eq fits, Int.toNat_natCast]
  exact persistTagsLoop_places short iovs carries _ _ _ _ [] (Nat.lt_succ_self _) le_rfl

end Vectors

variable {store : NvmKvStore}

/-- There are tags to write. -/
theorem poolTagsLen_positive : 0 < store.poolTagsLen := by
  have pools := store.poolsPositive
  have bounded : store.maxPools ≤ 1048576 := store.poolsBounded
  have tags : poolTagSize * store.maxPools = 16 * store.maxPools := rfl
  obtain ⟨lower, _⟩ := store.round_upto_sector_bounds (poolTagSize * store.maxPools) (by omega)
  exact Nat.lt_of_lt_of_le (by omega) lower

/-- As an `int` the number of vectors is never greater. -/
theorem maxTagIovs_le : store.maxTagIovs.toNat ≤ store.capabilities.nvmMaxNumIovs := by
  unfold NvmKvStore.maxTagIovs
  rw [Int.bmod_def]
  split <;> omega

/-- The tags come to their own places, each byte once, in writes that stay within the limits
of the device, and the call ends with success. -/
def TagsWithinLimits (store : NvmKvStore) (poolTags : Memory) (maxTotalSize : Nat) : Prop :=
  ∃ batches : List (List NvmIovec),
    (persistTags store poolTags maxTotalSize).run takeBatches [] = some (.ok (), batches) ∧
    WritesInOrder store (store.poolTagsLba * store.sectorSize) batches.flatten
      (store.poolTagsLba * store.sectorSize + store.poolTagsLen) ∧
    (∀ vector ∈ batches.flatten, ToOwnPlace store poolTags vector) ∧
    ∀ batch ∈ batches, batch.length ≤ store.capabilities.nvmMaxNumIovs ∧
      writeLen batch ≤ maxTotalSize

/-- The limit is a multiple of the greatest vector, the vectors that a write may have do not
reach it, or the tags as a whole do not. -/
def LimitKept (store : NvmKvStore) (maxTotalSize : Nat) : Prop :=
  store.capabilities.maxWriteSize ∣ maxTotalSize ∨
    store.maxTagIovs.toNat * store.capabilities.maxWriteSize ≤ maxTotalSize ∨
    store.poolTagsLen ≤ maxTotalSize

variable {poolTags : Memory} {maxTotalSize : Nat}

/-- A limit below `2 ^ 31` is taken as it is. -/
theorem persistTags_eq (fits : maxTotalSize < 2 ^ 31) :
    persistTags store poolTags maxTotalSize =
      persistTagsLoop store poolTags store.maxTagIovs.toNat maxTotalSize (store.poolTagsLen + 1)
        store.poolTagsLen 0 := by
  unfold persistTags
  congr 1
  exact Nat.mod_eq_of_lt (by omega)

/-- Writes within the limits need a positive number of vectors and the condition on the
limit: the first write is the fullest one. -/
theorem limitKept_of_within (short : store.capabilities.maxWriteSize < 2 ^ 31)
    (carries : store.capabilities.maxWriteSize ≤ maxTotalSize) (fits : maxTotalSize < 2 ^ 31)
    (within : TagsWithinLimits store poolTags maxTotalSize) :
    0 < store.maxTagIovs ∧ LimitKept store maxTotalSize := by
  obtain ⟨batches, ran, _, _, limits⟩ := within
  have positive : 0 < store.capabilities.maxWriteSize := store.capabilities.writePositive
  rw [persistTags_eq fits] at ran
  by_cases iovs : 0 < store.maxTagIovs
  · refine ⟨iovs, ?_⟩
    obtain ⟨found, reached, _, _, _, first⟩ := @run_persistTagsLoop store poolTags maxTotalSize
      short store.maxTagIovs.toNat (by omega) (by omega) (store.poolTagsLen + 1)
      store.poolTagsLen 0 [] (Nat.lt_succ_self _)
    rw [ran] at reached
    cases reached
    have below := (limits _ (first poolTagsLen_positive)).2
    by_contra broken
    unfold LimitKept at broken
    rw [← maxTagVector_eq short] at broken carries positive
    have passes := @tagVectors_passes store poolTags maxTotalSize store.maxTagIovs.toNat
      store.poolTagsLen 0 0 (fun whole => broken (Or.inl whole)) (Nat.dvd_zero _) (by omega)
      (by omega) (by omega)
    omega
  · have none : store.maxTagIovs.toNat = 0 := by omega
    rw [none, run_persistTagsLoop_stuck poolTagsLen_positive] at ran
    cases ran

/-- The tags are written within the limits of the device just when the number of vectors is
positive as an `int` and the limit of an atomic write cannot be passed by a part of a
vector. -/
theorem tags_within_limits_iff (store : NvmKvStore) (poolTags : Memory) (maxTotalSize : Nat)
    (short : store.capabilities.maxWriteSize < 2 ^ 31)
    (carries : store.capabilities.maxWriteSize ≤ maxTotalSize) (fits : maxTotalSize < 2 ^ 31) :
    TagsWithinLimits store poolTags maxTotalSize ↔
      0 < store.maxTagIovs ∧ LimitKept store maxTotalSize := by
  constructor
  · exact limitKept_of_within short carries fits
  · rintro ⟨iovs, kept⟩
    have positive : 0 < store.capabilities.maxWriteSize := store.capabilities.writePositive
    obtain ⟨batches, ran, tiled, own, filled, _⟩ := @run_persistTagsLoop store poolTags
      maxTotalSize short store.maxTagIovs.toNat (by omega) (by omega) (store.poolTagsLen + 1)
      store.poolTagsLen 0 [] (Nat.lt_succ_self _)
    rw [Nat.zero_mul, Nat.add_zero] at tiled
    rw [← persistTags_eq fits] at ran
    refine ⟨batches, ran, tiled, own, ?_⟩
    intro batch member
    obtain ⟨length, done, less, same⟩ := filled batch member
    rw [same]
    constructor
    · obtain ⟨vectors, _, _, batch, _, _, _, few, _⟩ := @tagVectors_writes store poolTags
        maxTotalSize short store.maxTagIovs.toNat length done 0
      rw [batch]
      exact few.trans maxTagIovs_le
    · have keeps : KeepsBelow store maxTotalSize store.maxTagIovs.toNat length 0 := by
        unfold KeepsBelow
        rw [maxTagVector_eq short]
        rcases kept with whole | few | all
        · exact Or.inl ⟨whole, Nat.dvd_zero _⟩
        · exact Or.inr (Or.inl (by omega))
        · exact Or.inr (Or.inr (by omega))
      have below := @tagVectors_below store poolTags maxTotalSize store.maxTagIovs.toNat length
        done 0 keeps (Nat.zero_le _)
      rwa [Nat.zero_add] at below

/-- A store with as many pools as there may be. -/
def NvmKvStore.manyPoolsStore : NvmKvStore :=
  { NvmKvStore.terabyteStore with
    maxPools := 1048576
    poolsPositive := by decide
    poolsBounded := by decide }

/-- Its tags on a device that may write 1 MiB at once: two vectors in each of sixteen writes,
within the limit. -/
theorem tags_within_limits_manyPools : ∃ batches : List (List NvmIovec),
    (persistTags NvmKvStore.manyPoolsStore (poolBuffer fun _ => 0) 1048576).run takeBatches [] =
      some (.ok (), batches) ∧
    batches.map (fun batch => batch.map NvmIovec.iovLen) = List.replicate 16 [524288, 524288] ∧
    WritesInOrder NvmKvStore.manyPoolsStore 2097152 batches.flatten (2097152 + 16777216) ∧
    ∀ batch ∈ batches, writeLen batch ≤ 1048576 := by
  have ran : ((persistTags NvmKvStore.manyPoolsStore (poolBuffer fun _ => 0) 1048576).run
      takeBatches []).map (fun ended => ended.2.map fun batch => batch.map NvmIovec.iovLen) =
        some (List.replicate 16 [524288, 524288]) := by decide +kernel
  have place : NvmKvStore.manyPoolsStore.poolTagsLba * NvmKvStore.manyPoolsStore.sectorSize =
      2097152 := by decide +kernel
  have length : NvmKvStore.manyPoolsStore.poolTagsLen = 16777216 := by decide +kernel
  obtain ⟨batches, sent, inOrder, _, limits⟩ := (tags_within_limits_iff NvmKvStore.manyPoolsStore
    (poolBuffer fun _ => 0) 1048576 (by decide) (by decide) (by decide)).mpr
      ⟨by decide, Or.inl (by decide)⟩
  rw [sent] at ran
  rw [place, length] at inOrder
  exact ⟨batches, sent, Option.some.inj ran, inOrder, fun batch member => (limits batch member).2⟩

/-- On a device that may write 600 KiB at once in vectors of 512 KiB, a write of the tags of
`2 ^ 20` pools has two vectors and 1 MiB. -/
theorem tags_pass_limit :
    ¬∀ (store : NvmKvStore) (poolTags : Memory) (maxTotalSize : Nat),
      store.capabilities.maxWriteSize < 2 ^ 31 → store.capabilities.maxWriteSize ≤ maxTotalSize →
      maxTotalSize < 2 ^ 31 → TagsWithinLimits store poolTags maxTotalSize := by
  intro within
  have vector : NvmKvStore.manyPoolsStore.capabilities.maxWriteSize = 524288 := rfl
  have kept := (limitKept_of_within (by rw [vector]; decide) (by rw [vector]; decide) (by decide)
    (within NvmKvStore.manyPoolsStore (poolBuffer fun _ => 0) 614400 (by rw [vector]; decide)
      (by rw [vector]; decide) (by decide))).2
  have iovs : NvmKvStore.manyPoolsStore.maxTagIovs = 64 := by decide
  have tags : NvmKvStore.manyPoolsStore.poolTagsLen = 16777216 := by decide +kernel
  unfold LimitKept at kept
  rw [vector, iovs, tags] at kept
  revert kept
  decide

end Nvmkv
