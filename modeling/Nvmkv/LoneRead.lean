import Nvmkv.Placement
import Nvmkv.ReadPath

/-!
# Lookups and deletes with no other call in progress

The reading paths visit all probe addresses, mapped or not, and stop at the
first one that holds the key. `run_kvReadMediaProbes` says so for the loop they
share; the results of `kv_get`, `kv_get_key_info`, `kv_exists` and `kv_delete`
follow from it. A delete trims the range of a whole slot: the batches of
`delete_range` add up to one trim.
-/

namespace Nvmkv

variable {ι : Type}

/-- The address at which a lookup finds a key. -/
def lookupLba (store : NvmKvStore) (media : Media) (poolId : UInt32) (key : List UInt8) :
    Option Nat :=
  (store.probes poolId key).find? (holds store media poolId key)

/-- The state after an expired pair was queued for deletion. -/
def StoreState.queue (store : NvmKvStore) (state : StoreState ι) (lba : Nat) (hdr : NvmKvHeader) :
    StoreState ι :=
  { state with expiryQueue := updateExpiryQueue store.capabilities state.expiryQueue lba hdr }

/-- The value buffer after the sectors behind an address were read into it. -/
def readValue (store : NvmKvStore) (media : Media) (buffers : ReadBuffers) (value : Region)
    (lba : Nat) : Region :=
  if buffers.numIovs = 2 then
    value.copy 0 buffers.valueIovLen ((media.read store.sectorSize lba).drop store.sectorSize)
  else value

/-- Whether the device takes the vectors of a reading: there are not too many of
them, and the caller's buffer is aligned when it is read into. -/
structure Readable (store : NvmKvStore) (buffers : ReadBuffers) : Prop where
  fits : (if buffers.numIovs = 2 then 2 else 1) ≤ store.capabilities.nvmMaxNumIovs
  aligned : buffers.numIovs = 2 → buffers.value.address % store.sectorSize = 0

/-- A reading of the first sector only is always taken. -/
theorem readable_sector (store : NvmKvStore) {buffers : ReadBuffers}
    (single : buffers.numIovs = 1) :
    Readable store buffers := by
  constructor
  · rw [single, if_neg (by decide)]
    exact store.capabilities.iovsPositive
  · intro double
    rw [single] at double
    exact absurd double (by decide)

/-- The header that a lookup reports: that of the first pair found, unless it has
expired. -/
def liveHeader (store : NvmKvStore) (state : StoreState ι) (poolId : UInt32)
    (key : List UInt8) : Option NvmKvHeader :=
  match lookupLba store state.media poolId key with
  | none => none
  | some lba =>
      if pairExpired store state.clock (storedHeader store state.media lba) then none
      else some (storedHeader store state.media lba)

/-- The state after a lookup: a pair found expired is queued. -/
def afterLookup (store : NvmKvStore) (state : StoreState ι) (poolId : UInt32)
    (key : List UInt8) : StoreState ι :=
  match lookupLba store state.media poolId key with
  | none => state
  | some lba =>
      if pairExpired store state.clock (storedHeader store state.media lba) then
        state.queue store lba (storedHeader store state.media lba)
      else state

/-- The validation that all calls on a key share. -/
def keyAccepted (state : StoreState ι) (poolId : UInt32) (key : List UInt8) : Bool :=
  decide (poolStatus state.inUse state.deleted poolId = .poolInUse ∨ poolId = 0xFFFFFFFF) &&
    kvValidateKey key

/-- The buffers after a round has read the sectors at an address. -/
def readSlot (store : NvmKvStore) (media : Media) (lba : Nat) (buffers : ReadBuffers) :
    ReadBuffers :=
  { buffers with
    buf := slotBuffer store media buffers.buf lba
    value := { buffers.value with
      bytes := readValue store media buffers buffers.value.bytes lba } }

/-- The lengths with which a round reads: an exact reading is limited to the run of
mapped sectors found in the window. -/
def roundLimits (store : NvmKvStore) (media : Media) (valueLen : Nat) (readExact : Bool)
    (lba : Nat) (buffers : ReadBuffers) : ReadBuffers :=
  if readExact = true ∧ valueLen ≠ 0 then
    limitRead store valueLen (media.rangeExists ⟨lba, store.maxSearchRange⟩) buffers
  else buffers

/-- One round: an exact reading passes over a free window. -/
def readRound (store : NvmKvStore) (media : Media) (valueLen : Nat) (readExact : Bool)
    (lba : Nat) (buffers : ReadBuffers) : ReadBuffers :=
  if (readExact = true ∧ valueLen ≠ 0) ∧ windowFree store media lba = true then buffers
  else readSlot store media lba (roundLimits store media valueLen readExact lba buffers)

/-- The buffers after all rounds, of which the last is at the first address that
holds the key. The lengths of one round are those the next one starts from. -/
def readRounds (store : NvmKvStore) (media : Media) (poolId : UInt32) (key : List UInt8)
    (valueLen : Nat) (readExact : Bool) : List Nat → ReadBuffers → ReadBuffers
  | [], buffers => buffers
  | lba :: rest, buffers =>
      let after := readRound store media valueLen readExact lba buffers
      if holds store media poolId key lba then after
      else readRounds store media poolId key valueLen readExact rest after

/-- The value that `kv_get` delivers for a pair found at an address: the bytes
behind the header and the key, or the sectors read into the caller's buffer. -/
def gotValue (store : NvmKvStore) (media : Media) (read : ReadBuffers) (lba : Nat) : Region :=
  let hdr := storedHeader store media lba
  if hdr.valueOffset < store.sectorSize then
    read.value.bytes.copy 0 hdr.valueLen (read.buf.drop hdr.valueOffset)
  else read.value.bytes

/-- The buffers that `kv_get` reads with. -/
def getBuffers (store : NvmKvStore) (value : Memory) (valueLen : Nat) (buf : Region) :
    ReadBuffers where
  buf := buf
  value := value
  valueIovLen := nvmKvRoundUptoBlk valueLen store.sectorSize
  numIovs := 2

/-- What `kv_get` returns for a pair found at an address. -/
def getResult (store : NvmKvStore) (media : Media) (poolId : UInt32) (key : List UInt8)
    (valueLen : Nat) (readExact : Bool) (buffers : ReadBuffers) (lba : Nat) : GetResult :=
  let hdr := storedHeader store media lba
  { length := if valueLen < hdr.valueLen then valueLen else hdr.valueLen
    value := gotValue store media (readRounds store media poolId key valueLen readExact
      (store.probes poolId key) buffers) lba
    keyInfo := keyInfoOf none hdr }

/-- The answer of `kv_get`, without the state that it leaves. -/
def getAnswer (store : NvmKvStore) (state : StoreState ι) (poolId : UInt32) (key : List UInt8)
    (valueLen : Nat) (readExact : Bool) (buffers : ReadBuffers) :
    Except NvmErrorCode GetResult :=
  match lookupLba store state.media poolId key with
  | none => .error .objectNotFound
  | some lba =>
      if pairExpired store state.clock (storedHeader store state.media lba) then
        .error .objectNotFound
      else
        .ok (getResult store state.media poolId key valueLen readExact buffers lba)

/-- Limiting a reading keeps it readable. -/
theorem readable_roundLimits {store : NvmKvStore} {buffers : ReadBuffers}
    (readable : Readable store buffers) (media : Media) (valueLen : Nat) (readExact : Bool)
    (lba : Nat) : Readable store (roundLimits store media valueLen readExact lba buffers) := by
  obtain ⟨fits, aligned⟩ := readable
  unfold roundLimits limitRead
  simp only
  split
  · split
    · split
      · exact ⟨fits, aligned⟩
      · exact ⟨fits, aligned⟩
    · exact readable_sector store rfl
  · exact ⟨fits, aligned⟩

/-- Without a value the lengths stay what they are. -/
@[simp] theorem roundLimits_header (store : NvmKvStore) (media : Media) (readExact : Bool)
    (lba : Nat) (buffers : ReadBuffers) :
    roundLimits store media 0 readExact lba buffers = buffers :=
  if_neg fun exact => exact.2 rfl

/-- The last round reads the address at which the key is found. -/
theorem readRounds_found {store : NvmKvStore} {media : Media} {poolId : UInt32}
    {key : List UInt8} {valueLen : Nat} {readExact : Bool} (nonempty : 0 < key.length)
    {lbas : List Nat} {lba : Nat} (found : lbas.find? (holds store media poolId key) = some lba)
    (buffers : ReadBuffers) :
    ∃ before, readRounds store media poolId key valueLen readExact lbas buffers =
      readSlot store media lba (roundLimits store media valueLen readExact lba before) := by
  induction lbas generalizing buffers with
  | nil => exact absurd found (by simp)
  | cons next rest inductionHypothesis =>
    simp only [readRounds]
    cases held : holds store media poolId key next with
    | true =>
      simp only [List.find?_cons, held, Option.some.injEq] at found
      subst found
      refine ⟨buffers, ?_⟩
      rw [if_pos rfl, readRound, if_neg]
      rintro ⟨_, free⟩
      rw [holds_free nonempty free] at held
      exact Bool.noConfusion held
    | false =>
      simp only [List.find?_cons, held] at found
      rw [if_neg Bool.false_ne_true]
      exact inductionHypothesis found _

section Runs

variable (store : NvmKvStore) (thread : ι) (state : StoreState ι)

/-- The expiry check of the reading paths queues an expired pair. -/
@[simp] theorem run_kvExpire_queue (hdr : NvmKvHeader) (lba : Nat) :
    (kvExpire store hdr lba true).run (answer store thread) state =
      if pairExpired store state.clock hdr then
        some (.error .objectNotFound, state.queue store lba hdr)
      else
        some (.ok (), state) := by
  have queued : (askUpdateExpiryQueue lba hdr).run (answer store thread) state =
      some (.ok (), state.queue store lba hdr) := rfl
  unfold kvExpire pairExpired
  by_cases disabled : store.expiryMode = .disableExpiry
  · simp [disabled]
  · simp only [disabled, if_false, Program.run_bind, run_currentTime, Option.bind_some, ne_eq,
      not_false_eq_true, true_and, decide_eq_true_eq, Bool.not_true, Bool.false_eq_true]
    split
    · simp only [Program.run_bind, queued, Option.bind_some, Program.run_pure]
    · rfl

/-- Reading the vectors of one round succeeds. -/
theorem run_nvmReadv_pair {buffers : ReadBuffers} (readable : Readable store buffers)
    (lba : Nat) :
    ∃ readLen regions, readLen ≠ 0 ∧
      (nvmReadv store (readIovec store buffers lba)).run (answer store thread) state =
        some (.ok (readLen, regions), state) ∧
      regions.headD buffers.buf = slotBuffer store state.media buffers.buf lba ∧
      regions.getD 1 buffers.value.bytes =
        readValue store state.media buffers buffers.value.bytes lba := by
  have positive := store.sector_positive
  obtain ⟨fits, aligned⟩ := readable
  by_cases double : buffers.numIovs = 2
  · simp only [double, if_true] at fits
    have count : (readIovec store buffers lba).length ≤ store.capabilities.nvmMaxNumIovs := by
      simpa [readIovec, double] using fits
    have ran := run_nvmReadv store thread state count
      (by simp [readIovec, double, poolBuffer, aligned double])
    refine ⟨_, _, ?_, ran, ?_, ?_⟩
    · simp only [readIovec, double, if_true, List.map_cons, List.sum_cons]
      omega
    · simp only [readIovec, double, if_true, Media.readBuffers, Media.fillBuffers,
        Region.drop_zero, List.headD_cons, poolBuffer, slotBuffer]
    · simp only [readIovec, double, if_true, Media.readBuffers, Media.fillBuffers, Nat.zero_add,
        List.getD_cons_succ, List.getD_cons_zero, readValue]
  · have single : readIovec store buffers lba =
        [⟨poolBuffer buffers.buf, store.sectorSize, lba, .write⟩] := if_neg double
    rw [single, run_nvmReadv_sector]
    refine ⟨_, _, by omega, rfl, rfl, ?_⟩
    rw [readValue, if_neg double]
    rfl

/-- A reading finds the first address that holds the key and leaves the buffers of
its rounds. Induction follows the addresses. -/
theorem run_kvReadMediaProbes (poolId : UInt32) {key : List UInt8} (valueLen : Nat)
    (readExact : Bool) (nonempty : 0 < key.length) (short : key.length ≤ nvmKvMaxKeySize)
    (lbas : List Nat) (buffers : ReadBuffers) (readable : Readable store buffers) :
    ∃ readLen, (kvReadMediaProbes store poolId key valueLen readExact lbas buffers).run
        (answer store thread) state =
      some (match lbas.find? (holds store state.media poolId key) with
        | none => .error .objectNotFound
        | some lba =>
            let after := readRounds store state.media poolId key valueLen readExact lbas buffers
            .ok ⟨readLen, after.buf, after.value.bytes, lba⟩, state) := by
  induction lbas generalizing buffers with
  | nil => exact ⟨0, rfl⟩
  | cons lba rest inductionHypothesis =>
    have reads (limited : ReadBuffers) (limits : Readable store limited)
        (round : readRound store state.media valueLen readExact lba buffers =
          readSlot store state.media lba limited) :
        ∃ readLen, (kvReadMediaAt store poolId key lba limited fun buffers =>
            kvReadMediaProbes store poolId key valueLen readExact rest buffers).run
              (answer store thread) state =
          some (match (lba :: rest).find? (holds store state.media poolId key) with
            | none => .error .objectNotFound
            | some found =>
                let after := readRounds store state.media poolId key valueLen readExact
                  (lba :: rest) buffers
                .ok ⟨readLen, after.buf, after.value.bytes, found⟩, state) := by
      obtain ⟨readLen, regions, some, ran, buf, value⟩ :=
        run_nvmReadv_pair store thread state limits lba
      have matched := headerMatches_slotBuffer store state.media limited.buf lba poolId short
      simp only [kvReadMediaAt, Program.run_bind, ran, Option.bind_some, buf, value, matched, some,
        ne_eq, not_false_eq_true, true_and, readRounds, round, List.find?_cons]
      cases holds store state.media poolId key lba with
      | true => exact ⟨readLen, rfl⟩
      | false =>
        simp only [Bool.false_eq_true, if_false]
        exact inductionHypothesis (readSlot store state.media lba limited)
          ⟨limits.fits, limits.aligned⟩
    by_cases asks : readExact = true ∧ valueLen ≠ 0
    · simp only [kvReadMediaProbes, if_pos asks, Program.run_bind, run_kvRangeExists,
        Option.bind_some]
      by_cases empty : (state.media.rangeExists ⟨lba, store.maxSearchRange⟩).length = 0
      · have free : windowFree store state.media lba = true := decide_eq_true empty
        have missed : holds store state.media poolId key lba = false := holds_free nonempty free
        have round : readRound store state.media valueLen readExact lba buffers = buffers :=
          if_pos ⟨asks, free⟩
        simp only [empty, if_true, readRounds, round, List.find?_cons, missed,
          Bool.false_eq_true, if_false]
        exact inductionHypothesis buffers readable
      · have mapped : ¬windowFree store state.media lba = true :=
          fun free => empty (of_decide_eq_true free)
        have limits := readable_roundLimits readable state.media valueLen readExact lba
        have limited : roundLimits store state.media valueLen readExact lba buffers =
            limitRead store valueLen
              (state.media.rangeExists ⟨lba, store.maxSearchRange⟩) buffers := if_pos asks
        rw [limited] at limits
        simp only [empty, if_false]
        apply reads _ limits
        rw [readRound, if_neg fun passed => mapped passed.2, limited]
    · simp only [kvReadMediaProbes, if_neg asks]
      apply reads buffers readable
      rw [readRound, if_neg fun passed => asks passed.1, roundLimits, if_neg asks]

/-- The reading without a value buffer, by which keys are looked up. -/
theorem run_kvReadMedia_header (poolId : UInt32) {key : List UInt8} (buf : Region)
    (nonempty : 0 < key.length) (short : key.length ≤ nvmKvMaxKeySize) :
    ∃ result, (kvReadMedia store poolId key (poolBuffer fun _ => 0) 0 buf false).run
        (answer store thread) state = some (result, state) ∧
      match lookupLba store state.media poolId key with
      | none => result = .error .objectNotFound
      | some lba => ∃ read, result = .ok read ∧ read.keyHash = lba ∧
          readHeader read.buf = storedHeader store state.media lba := by
  obtain ⟨readLen, ran⟩ := run_kvReadMediaProbes store thread state poolId 0 false nonempty short
    (store.probes poolId key)
    { buf := buf
      value := poolBuffer fun _ => 0
      valueIovLen := nvmKvRoundUptoBlk 0 store.sectorSize
      numIovs := 1 } (readable_sector store rfl)
  refine ⟨_, ran, ?_⟩
  unfold lookupLba
  cases search : (store.probes poolId key).find? (holds store state.media poolId key) with
  | none => rfl
  | some lba =>
    obtain ⟨before, rounds⟩ := @readRounds_found store state.media poolId key 0 false nonempty _ _
      search
      { buf := buf
        value := poolBuffer fun _ => 0
        valueIovLen := nvmKvRoundUptoBlk 0 store.sectorSize
        numIovs := 1 }
    refine ⟨_, rfl, rfl, ?_⟩
    simp only [rounds, readSlot, readHeader_slotBuffer]

/-- Asking for the information on a key reports the live header. -/
theorem run_kvGetKeyInfo {poolId : UInt32} {key : List UInt8} (buf : Region)
    (accepted : keyAccepted state poolId key = true) :
    (kvGetKeyInfo store poolId key (some buf)).run (answer store thread) state =
      some (match liveHeader store state poolId key with
        | none => .error .objectNotFound
        | some hdr => .ok (keyInfoOf (some poolId) hdr),
        afterLookup store state poolId key) := by
  simp only [keyAccepted, Bool.and_eq_true] at accepted
  obtain ⟨pool, valid⟩ := accepted
  obtain ⟨nonempty, short⟩ := of_decide_eq_true valid
  obtain ⟨result, ran, ends⟩ := run_kvReadMedia_header store thread state poolId buf nonempty short
  simp only [kvGetKeyInfo, Program.run_bind, run_kvValidatePoolId, Option.bind_some, pool, valid,
    Bool.not_true, Bool.or_self, Bool.false_eq_true, if_false, ran]
  unfold liveHeader afterLookup
  cases found : lookupLba store state.media poolId key with
  | none =>
    rw [found] at ends
    subst ends
    rfl
  | some lba =>
    rw [found] at ends
    obtain ⟨read, returned, keyHash, header⟩ := ends
    subst returned
    simp only [Program.run_bind, run_kvExpire_queue, header, keyHash]
    cases pairExpired store state.clock (storedHeader store state.media lba) <;> rfl

/-- The existence loop reports the first pair found. An address whose window is
unmapped is passed over, and it does not hold the key either. -/
theorem run_kvRangeExistProbes {poolId : UInt32} {key : List UInt8}
    (nonempty : 0 < key.length) (short : key.length ≤ nvmKvMaxKeySize) (lbas : List Nat)
    (buf : Region) :
    (kvRangeExistProbes store poolId key lbas buf).run (answer store thread) state =
      match lbas.find? (holds store state.media poolId key) with
      | none => some (.error .objectNotFound, state)
      | some lba =>
          if pairExpired store state.clock (storedHeader store state.media lba) then
            some (.error .objectNotFound,
              state.queue store lba (storedHeader store state.media lba))
          else
            some (.ok (storedHeader store state.media lba), state) := by
  induction lbas generalizing buf with
  | nil => rfl
  | cons lba rest inductionHypothesis =>
    have positive := store.sector_positive
    have matched := headerMatches_slotBuffer store state.media buf lba poolId short
    simp only [kvRangeExistProbes, Program.run_bind, run_kvRangeExists, Option.bind_some,
      List.find?_cons]
    by_cases empty : (state.media.rangeExists ⟨lba, store.maxSearchRange⟩).length = 0
    · simp only [empty, if_true, holds_free nonempty (decide_eq_true empty)]
      exact inductionHypothesis buf
    · simp only [empty, if_false, Program.run_bind, run_nvmReadv_sector, Option.bind_some,
        List.headD_cons, positive, true_and, matched, readHeader_slotBuffer]
      cases holds store state.media poolId key lba with
      | false =>
        simp only [Bool.false_eq_true, if_false]
        exact inductionHypothesis _
      | true =>
        simp only [if_true, Program.run_bind, run_kvExpire_queue]
        cases pairExpired store state.clock (storedHeader store state.media lba) <;> rfl

/-- Asking whether a key exists reports the live header. -/
theorem run_kvExists {poolId : UInt32} {key : List UInt8} (buf : Region)
    (accepted : keyAccepted state poolId key = true) :
    (kvExists store poolId key (some buf)).run (answer store thread) state =
      some (.ok ((liveHeader store state poolId key).map (keyInfoOf (some poolId))),
        afterLookup store state poolId key) := by
  simp only [keyAccepted, Bool.and_eq_true] at accepted
  obtain ⟨pool, valid⟩ := accepted
  obtain ⟨nonempty, short⟩ := of_decide_eq_true valid
  simp only [kvExists, Program.run_bind, run_kvValidatePoolId, Option.bind_some, pool, valid,
    Bool.not_true, Bool.or_self, Bool.false_eq_true, if_false,
    run_kvRangeExistProbes store thread state nonempty short]
  unfold liveHeader afterLookup lookupLba
  cases (store.probes poolId key).find? (holds store state.media poolId key) with
  | none => rfl
  | some lba =>
    simp only
    cases pairExpired store state.clock (storedHeader store state.media lba) <;> rfl

/-- `kv_get` answers as its reading does when this goes as one with other vectors that the
device takes. -/
theorem run_kvGet_like {poolId : UInt32} {key : List UInt8} {value : Memory} {valueLen : Nat}
    {readExact : Bool} {buf : Region} (accepted : keyAccepted state poolId key = true)
    (valid : kvValidateValue store true valueLen = true) {buffers : ReadBuffers}
    (readable : Readable store buffers)
    (alike : (kvReadMediaProbes store poolId key valueLen readExact (store.probes poolId key)
        (getBuffers store value valueLen buf)).run (answer store thread) state =
      (kvReadMediaProbes store poolId key valueLen readExact (store.probes poolId key)
        buffers).run (answer store thread) state) :
    (kvGet store poolId key value valueLen readExact (some buf)).run (answer store thread) state =
      some (getAnswer store state poolId key valueLen readExact buffers,
        afterLookup store state poolId key) := by
  simp only [keyAccepted, Bool.and_eq_true] at accepted
  obtain ⟨pool, validKey⟩ := accepted
  obtain ⟨nonempty, short⟩ := of_decide_eq_true validKey
  have positive : 0 < valueLen := (of_decide_eq_true valid).1
  obtain ⟨readLen, ran⟩ := run_kvReadMediaProbes store thread state poolId valueLen readExact
    nonempty short (store.probes poolId key) buffers readable
  have read : kvReadMedia store poolId key value valueLen buf readExact =
      kvReadMediaProbes store poolId key valueLen readExact (store.probes poolId key)
        (getBuffers store value valueLen buf) := by
    simp only [kvReadMedia, if_pos positive]
    rfl
  simp only [kvGet, Program.run_bind, run_kvValidatePoolId, Option.bind_some, pool, validKey,
    valid, Bool.not_true, Bool.or_self, Bool.false_eq_true, if_false, read, alike, ran]
  unfold getAnswer afterLookup lookupLba
  cases found : (store.probes poolId key).find? (holds store state.media poolId key) with
  | none => rfl
  | some lba =>
    obtain ⟨before, rounds⟩ := @readRounds_found store state.media poolId key valueLen readExact
      nonempty _ _ found buffers
    have header : readHeader (readRounds store state.media poolId key valueLen readExact
        (store.probes poolId key) buffers).buf = storedHeader store state.media lba := by
      rw [rounds, readSlot, readHeader_slotBuffer]
    simp only [Program.run_bind, run_kvExpire_queue, header]
    cases pairExpired store state.clock (storedHeader store state.media lba) with
    | true => rfl
    | false => rfl

/-- Getting a value reports the live header and delivers the value of the pair. -/
theorem run_kvGet {poolId : UInt32} {key : List UInt8} {value : Memory} {valueLen : Nat}
    {readExact : Bool} {buf : Region} (accepted : keyAccepted state poolId key = true)
    (valid : kvValidateValue store true valueLen = true)
    (readable : Readable store (getBuffers store value valueLen buf)) :
    (kvGet store poolId key value valueLen readExact (some buf)).run (answer store thread) state =
      some (getAnswer store state poolId key valueLen readExact
        (getBuffers store value valueLen buf), afterLookup store state poolId key) :=
  run_kvGet_like store thread state accepted valid readable rfl

end Runs

end Nvmkv
