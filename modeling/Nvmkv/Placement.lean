import Nvmkv.WritePath

/-!
# Where a put goes when no other call is in progress

The search of `kv_gen_lba` run by one caller on a free safe list. At an address
three things matter: whether the window that starts there is unmapped, whether
the header there is the key's, and whether that pair has expired. `place` walks
along the probe addresses by these questions alone. `run_kvGenLbaProbes` says
that the program does the same and takes the address it ends at.
-/

namespace Nvmkv

variable {ι : Type}

/-- The header stored at an address. -/
def storedHeader (store : NvmKvStore) (media : Media) (lba : Nat) : NvmKvHeader :=
  readHeader (media.read store.sectorSize lba)

/-- Whether an address holds a pair of the key. -/
def holds (store : NvmKvStore) (media : Media) (poolId : UInt32) (key : List UInt8)
    (lba : Nat) : Bool :=
  headerMatches (media.read store.sectorSize lba) poolId key

/-- Whether a pair with this header has expired at a time. -/
def pairExpired (store : NvmKvStore) (clock : Nat) (hdr : NvmKvHeader) : Bool :=
  store.expiryMode ≠ .disableExpiry ∧ hdr.expiry < clock % 2 ^ 32 ∧ hdr.expiry ≠ 0

/-- Whether the search window at an address is unmapped. -/
def windowFree (store : NvmKvStore) (media : Media) (lba : Nat) : Bool :=
  (media.rangeExists ⟨lba, store.maxSearchRange⟩).length = 0

/-- The window of an address is free when none of its sectors is mapped. -/
theorem windowFree_iff {store : NvmKvStore} {media : Media} {lba : Nat} :
    windowFree store media lba = true ↔ media.Unmapped lba (2 ^ store.valueBits) := by
  rw [windowFree, decide_eq_true_iff, Media.rangeExists_length_eq_zero,
    NvmKvStore.maxSearchRange_eq]

/-- How a search ends: at a free window, at an expired pair of the key, at a live
pair that may be replaced or may not, or nowhere. -/
inductive Place where
  | fresh (lba : Nat)
  | revived (lba : Nat)
  | replaced (lba : Nat)
  | refused (lba : Nat)
  | full

/-- The end of the search along some addresses. -/
def place (store : NvmKvStore) (clock : Nat) (media : Media) (poolId : UInt32)
    (key : List UInt8) (replace : Bool) : List Nat → Place
  | [] => .full
  | lba :: rest =>
      if windowFree store media lba then
        .fresh lba
      else if holds store media poolId key lba then
        if pairExpired store clock (storedHeader store media lba) then .revived lba
        else if replace then .replaced lba
        else .refused lba
      else
        place store clock media poolId key replace rest

/-- The state in which a thread has taken an address. -/
def StoreState.hold (state : StoreState ι) (thread : ι) (lba : Nat) : StoreState ι :=
  { state with safeLbaList := Function.update state.safeLbaList lba (some thread) }

/-- The state in which an address was released. -/
def StoreState.release (state : StoreState ι) (lba : Nat) : StoreState ι :=
  { state with safeLbaList := Function.update state.safeLbaList lba none }

/-- Taking a free address and releasing it changes nothing. -/
theorem StoreState.release_hold (state : StoreState ι) (thread : ι) (lba : Nat)
    (free : state.safeLbaList lba = none) : (state.hold thread lba).release lba = state := by
  have restored : Function.update (Function.update state.safeLbaList lba (some thread)) lba none =
      state.safeLbaList := by
    rw [Function.update_idem, ← free, Function.update_eq_self]
  simp only [hold, release, restored]

/-- The result of a search of `pair` that ends at a place. -/
def Place.result (store : NvmKvStore) (media : Media) (poolId : UInt32) (pair : NvmKvIovec)
    (buf : Region) : Place → GenLba
  | .fresh lba => ⟨.ok (), 0, lba, true, buf⟩
  | .revived lba => ⟨.ok (), 0, lba, true, buf⟩
  | .replaced lba =>
      ⟨.ok (), replacedLen (storedHeader store media lba) pair.valueLen, lba, true, buf⟩
  | .refused lba => ⟨.error .objectExists, 0, lba, false, buf⟩
  | .full =>
      ⟨.error .internalFailure, 0, store.probeLba poolId pair.key maxCollision, false, buf⟩

/-- The state after a search that ends at a place: a chosen address is taken. -/
def Place.after (thread : ι) (state : StoreState ι) : Place → StoreState ι
  | .fresh lba => state.hold thread lba
  | .revived lba => state.hold thread lba
  | .replaced lba => state.hold thread lba
  | .refused _ => state
  | .full => state

/-- A sector has room for the header and the longest key. -/
theorem header_fits_sector (store : NvmKvStore) :
    mKvHeaderSize + nvmKvMaxKeySize ≤ store.sectorSize := by
  have supported := store.capabilities.sectorSupported
  simp only [List.mem_cons, List.not_mem_nil, or_false] at supported
  unfold NvmKvStore.sectorSize
  rcases supported with size | size | size | size <;> rw [size] <;> decide

/-- The header buffer after the sector at an address was read into it. -/
def slotBuffer (store : NvmKvStore) (media : Media) (buf : Region) (lba : Nat) : Region :=
  buf.copy 0 store.sectorSize (media.read store.sectorSize lba)

/-- The first bytes of the buffer are those of the sector read. -/
theorem slotBuffer_inside (store : NvmKvStore) (media : Media) (buf : Region) (lba : Nat) {i : Nat}
    (inside : i < store.sectorSize) :
    slotBuffer store media buf lba i = media.read store.sectorSize lba i := by
  rw [slotBuffer, Region.copy_inside _ _ ⟨Nat.zero_le i, by omega⟩, Nat.sub_zero]

/-- The buffer matches a key when the sector does. -/
theorem headerMatches_slotBuffer (store : NvmKvStore) (media : Media) (buf : Region) (lba : Nat)
    (poolId : UInt32) {key : List UInt8} (short : key.length ≤ nvmKvMaxKeySize) :
    headerMatches (slotBuffer store media buf lba) poolId key =
      holds store media poolId key lba := by
  have room := header_fits_sector store
  exact headerMatches_congr fun i inside => slotBuffer_inside store media buf lba (by omega)

/-- So the header in the buffer is the stored one. -/
theorem readHeader_slotBuffer (store : NvmKvStore) (media : Media) (buf : Region) (lba : Nat) :
    readHeader (slotBuffer store media buf lba) = storedHeader store media lba := by
  have room := header_fits_sector store
  exact readHeader_congr fun i inside => slotBuffer_inside store media buf lba (by omega)

/-- A sector that is not mapped holds no pair: it reads as zeros and no key is
empty. -/
theorem holds_unmapped {store : NvmKvStore} {media : Media} {poolId : UInt32} {key : List UInt8}
    {lba : Nat} (nonempty : 0 < key.length) (unmapped : media lba = none) :
    holds store media poolId key lba = false := by
  have zero : ∀ i, i < store.sectorSize → media.read store.sectorSize lba i = 0 := by
    intro i inside
    unfold Media.read
    rw [Nat.div_eq_of_lt inside, Nat.add_zero, unmapped]
  have room := header_fits_sector store
  have size : mKvHeaderSize = 40 := rfl
  have keyLen : (storedHeader store media lba).keyLen = 0 := by
    simp only [storedHeader, readHeader, Region.word]
    rw [zero 4 (by omega), zero (4 + 1) (by omega), zero (4 + 2) (by omega),
      zero (4 + 3) (by omega)]
    rfl
  rw [holds, Bool.eq_false_iff]
  intro matched
  have length : (storedHeader store media lba).keyLen = key.length :=
    (headerMatches_iff.mp matched).1
  omega

/-- No pair is held in a free window. -/
theorem holds_free {store : NvmKvStore} {media : Media} {poolId : UInt32} {key : List UInt8}
    {lba : Nat} (nonempty : 0 < key.length) (free : windowFree store media lba = true) :
    holds store media poolId key lba = false :=
  holds_unmapped nonempty (windowFree_iff.mp free 0 (Nat.two_pow_pos _))

section Runs

variable (store : NvmKvStore) (thread : ι) (state : StoreState ι)

/-- A reading gives the sectors of its vectors. -/
@[simp] theorem run_preadv (iovec : List NvmIovec) :
    (preadv iovec).run (answer store thread) state =
      some (some (state.media.readBuffers store.sectorSize iovec), state) := rfl

/-- The device tells the first mapped run of the range. -/
@[simp] theorem run_nvmRangeExists (search : NvmBlockRange) :
    (nvmRangeExists search).run (answer store thread) state =
      some (some (state.media.rangeExists search), state) := rfl

/-- A batch changes the media by its vectors, and is logged. -/
@[simp] theorem run_nvmBatchAtomicOperations (iovec : List NvmIovec) :
    (nvmBatchAtomicOperations iovec).run (answer store thread) state =
      some (true, { state with
        media := state.media.applyBatch store.sectorSize iovec
        log := state.log ++ [(thread, iovec)] }) := rfl

/-- The time is that of the clock. -/
@[simp] theorem run_currentTime :
    currentTime.run (answer store thread) state = some (state.clock, state) := rfl

/-- The status comes from the shared bitmaps. -/
@[simp] theorem run_checkPoolStatus (poolId : UInt32) :
    (checkPoolStatus poolId).run (answer store thread) state =
      some (poolStatus state.inUse state.deleted poolId, state) := rfl

/-- An address is released whoever held it, and the answer tells whether it was held. -/
@[simp] theorem run_deleteLbaFromSafeList (lba : Nat) :
    (deleteLbaFromSafeList lba).run (answer store thread) state =
      some ((state.safeLbaList lba).isSome, state.release lba) := rfl

/-- A free address is inserted at the first check. -/
theorem run_checkEntry_free {lba : Nat} (free : state.safeLbaList lba = none) :
    (checkEntry lba).run (answer store thread) state = some (true, state.hold thread lba) := by
  have answered : answer store thread (.checkEntry lba) state =
      some (true, state.hold thread lba) := by
    simp only [answer, free, Option.isNone_none, if_true]
    rfl
  change (answer store thread (.checkEntry lba) state).bind _ = _
  rw [answered]
  rfl

/-- Reading into few enough aligned buffers succeeds. -/
theorem run_nvmReadv {iovec : List NvmIovec}
    (fits : iovec.length ≤ store.capabilities.nvmMaxNumIovs)
    (aligned : ∀ vector, vector ∈ iovec → vector.iovBase.address % store.sectorSize = 0) :
    (nvmReadv store iovec).run (answer store thread) state =
      some (.ok ((iovec.map (·.iovLen)).sum, state.media.readBuffers store.sectorSize iovec),
        state) := by
  have few : ¬store.capabilities.nvmMaxNumIovs < iovec.length := by omega
  have none : ¬(iovec.any fun vector =>
      decide (vector.iovBase.address % store.sectorSize ≠ 0)) = true := by
    rw [List.any_eq_true]
    rintro ⟨vector, member, unaligned⟩
    exact of_decide_eq_true unaligned (aligned vector member)
  simp only [nvmReadv, if_neg few, if_neg none, Program.run_bind, run_preadv, Option.bind_some,
    Program.run_pure]

/-- Reading one sector into a pool buffer succeeds. -/
@[simp] theorem run_nvmReadv_sector (buf : Region) (lba : Nat) :
    (nvmReadv store [⟨poolBuffer buf, store.sectorSize, lba, .write⟩]).run
      (answer store thread) state =
    some (.ok (store.sectorSize, [slotBuffer store state.media buf lba]), state) := by
  have fits : [NvmIovec.mk (poolBuffer buf) store.sectorSize lba .write].length ≤
      store.capabilities.nvmMaxNumIovs := store.capabilities.iovsPositive
  rw [run_nvmReadv store thread state fits (by simp [poolBuffer])]
  simp only [poolBuffer, Media.readBuffers, Media.fillBuffers, Region.drop_zero, List.map_cons,
    List.map_nil, List.sum_cons, List.sum_nil, Nat.add_zero, slotBuffer]

/-- An existence check finds the first mapped run, or no object. -/
@[simp] theorem run_kvRangeExists (search : NvmBlockRange) :
    (kvRangeExists search).run (answer store thread) state =
      some (if (state.media.rangeExists search).length = 0 then .error .objectNotFound
        else .ok (state.media.rangeExists search), state) := by
  simp only [kvRangeExists, Program.run_bind, run_nvmRangeExists, Option.bind_some,
    Program.run_pure]

/-- The expiry check of the writing paths leaves the state alone. -/
@[simp] theorem run_kvExpire_keep (hdr : NvmKvHeader) (lba : Nat) :
    (kvExpire store hdr lba false).run (answer store thread) state =
      some (if pairExpired store state.clock hdr then .error .objectNotFound else .ok (),
        state) := by
  unfold kvExpire pairExpired
  by_cases disabled : store.expiryMode = .disableExpiry
  · simp [disabled]
  · simp only [disabled, if_false, Program.run_bind, run_currentTime, Option.bind_some, ne_eq,
      not_false_eq_true, true_and, decide_eq_true_eq, Bool.not_false, if_true]
    split <;> rfl

/-- A free address is taken without waiting. -/
theorem run_insertEntry_free {lba : Nat} (free : state.safeLbaList lba = none) :
    (insertEntry lba).run (answer store thread) state = some (false, state.hold thread lba) := by
  simp only [insertEntry, Program.run_bind, run_checkEntry_free store thread state free,
    Option.bind_some, if_true, Program.run_pure]

/-- A batch of vectors is taken whole. -/
@[simp] theorem run_nvmWritev (iovec : List NvmIovec) :
    (nvmWritev iovec).run (answer store thread) state =
      some (.ok (), { state with
        media := state.media.applyBatch store.sectorSize iovec
        log := state.log ++ [(thread, iovec)] }) := by
  simp only [nvmWritev, Program.run_bind, run_nvmBatchAtomicOperations, Option.bind_some, if_true,
    Program.run_pure]

/-- A pool id is valid when the pool is in use or it stands for all pools. -/
@[simp] theorem run_kvValidatePoolId (poolId : UInt32) :
    (kvValidatePoolId poolId).run (answer store thread) state =
      some (decide (poolStatus state.inUse state.deleted poolId = .poolInUse ∨
        poolId = 0xFFFFFFFF), state) := by
  simp only [kvValidatePoolId, Program.run_bind, run_checkPoolStatus, Option.bind_some,
    Program.run_pure]

/-- How the reading of an address that is not held ends. -/
theorem run_kvGenLbaRead {poolId : UInt32} {pair : NvmKvIovec} {lba rounds : Nat} {buf : Region}
    (short : pair.key.length ≤ nvmKvMaxKeySize) (free : state.safeLbaList lba = none) :
    (kvGenLbaRead store poolId pair lba (rounds + 1) false buf).run (answer store thread) state =
      let buf := slotBuffer store state.media buf lba
      let hdr := storedHeader store state.media lba
      if holds store state.media poolId pair.key lba then
        if pairExpired store state.clock hdr then
          some (.returns ⟨.ok (), 0, lba, true, buf⟩, state.hold thread lba)
        else if pair.replace then
          some (.leaves true (replacedLen hdr pair.valueLen) buf, state.hold thread lba)
        else
          some (.returns ⟨.error .objectExists, 0, lba, false, buf⟩, state)
      else
        some (.leaves false 0 buf, state) := by
  simp only [kvGenLbaRead, Program.run_bind, run_nvmReadv_sector, Option.bind_some,
    List.headD_cons, headerMatches_slotBuffer store state.media buf lba poolId short,
    readHeader_slotBuffer]
  cases holds store state.media poolId pair.key lba with
  | false => simp only [Bool.false_eq_true, if_false, Program.run_pure]
  | true =>
    simp only [if_true, Program.run_bind, run_kvExpire_keep, Option.bind_some]
    cases pairExpired store state.clock (storedHeader store state.media lba) with
    | true =>
      simp only [if_true, Bool.false_eq_true, if_false, Program.run_bind,
        run_insertEntry_free store thread state free, Option.bind_some, Program.run_pure]
    | false =>
      cases pair.replace with
      | true =>
        simp only [if_true, Bool.false_eq_true, if_false, Program.run_bind,
          run_insertEntry_free store thread state free, Option.bind_some, Program.run_pure]
      | false => simp only [Bool.false_eq_true, if_false, Program.run_pure]

/-- The search along some addresses, none of which is on the safe list, ends as
`place` says and with the chosen address taken.

Induction follows the addresses. At each of them the program asks for the window,
then for the header, and goes on exactly when `place` does. -/
theorem run_kvGenLbaProbes {poolId : UInt32} {pair : NvmKvIovec} {lbas : List Nat} {buf : Region}
    (short : pair.key.length ≤ nvmKvMaxKeySize)
    (free : ∀ lba, lba ∈ lbas → state.safeLbaList lba = none) :
    ∃ after : Region,
      (kvGenLbaProbes store poolId pair lbas false buf).run (answer store thread) state =
        let ends := place store state.clock state.media poolId pair.key pair.replace lbas
        some (ends.result store state.media poolId pair after, ends.after thread state) := by
  induction lbas generalizing buf with
  | nil => exact ⟨buf, rfl⟩
  | cons lba rest inductionHypothesis =>
    have here : state.safeLbaList lba = none := free lba List.mem_cons_self
    have later : ∀ next, next ∈ rest → state.safeLbaList next = none :=
      fun next member => free next (List.mem_cons_of_mem _ member)
    simp only [kvGenLbaProbes, place, Program.run_bind, run_kvRangeExists, Option.bind_some]
    by_cases unmapped : windowFree store state.media lba = true
    · have empty : (state.media.rangeExists ⟨lba, store.maxSearchRange⟩).length = 0 :=
        of_decide_eq_true unmapped
      refine ⟨buf, ?_⟩
      simp only [empty, if_true, unmapped, Program.run_bind,
        run_insertEntry_free store thread state here, Option.bind_some, Bool.false_eq_true,
        if_false, Program.run_pure, Place.result, Place.after]
    · have mapped : ¬(state.media.rangeExists ⟨lba, store.maxSearchRange⟩).length = 0 :=
        fun empty => unmapped (decide_eq_true empty)
      obtain ⟨after, continued⟩ :=
        @inductionHypothesis (slotBuffer store state.media buf lba) later
      rw [Bool.not_eq_true] at unmapped
      simp only [mapped, if_false, unmapped, Bool.false_eq_true, kvGenLbaAt, Program.run_bind,
        run_kvGenLbaRead store thread state short here]
      cases holds store state.media poolId pair.key lba with
      | false =>
        refine ⟨after, ?_⟩
        simp only [Bool.false_eq_true, if_false, Option.bind_some]
        exact continued
      | true =>
        refine ⟨slotBuffer store state.media buf lba, ?_⟩
        cases pairExpired store state.clock (storedHeader store state.media lba) with
        | true =>
          simp only [if_true, Option.bind_some, Program.run_pure, Place.result, Place.after]
        | false =>
          cases pair.replace <;>
            simp only [Bool.false_eq_true, if_true, if_false, Option.bind_some, Program.run_pure,
              Place.result, Place.after]

end Runs

end Nvmkv
