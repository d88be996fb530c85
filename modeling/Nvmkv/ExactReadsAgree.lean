import Nvmkv.ExactReads
import Nvmkv.LookupsAgree

/-!
# When exact readings are like plain ones

An exact reading finds the same pair as a plain one and reports the same about it. The
bytes may differ. Each round of an exact reading limits the length of the value to the
mapped run that it has just found, and neither the limited length nor the number of
vectors is set back for the next round. What the windows on the way leave decides which
part of the value the last round still takes in.

`lastReader` follows these lengths along the addresses, for one byte of the value. The
byte delivered is the one stored behind the address where it was read last, and what the
caller's buffer held before when no round took it in.
-/

namespace Nvmkv

variable {store : NvmKvStore}

/-- The address behind which an exact reading has last read a byte of the value. -/
def lastReader (store : NvmKvStore) (media : Media) (valueLen i : Nat) :
    List Nat → ReadBuffers → Option Nat
  | [], _ => none
  | lba :: rest, buffers =>
      if windowFree store media lba then lastReader store media valueLen i rest buffers
      else
        let limited := roundLimits store media valueLen true lba buffers
        (lastReader store media valueLen i rest limited).or
          (if limited.numIovs = 2 ∧ i < limited.valueIovLen then some lba else none)

/-- The addresses that a lookup visits before it finds its key. -/
def passedAddresses (store : NvmKvStore) (media : Media) (poolId : UInt32) (key : List UInt8) :
    List Nat :=
  (store.probes poolId key).takeWhile fun lba => !holds store media poolId key lba

/-- Two readings go on with the same lengths. -/
structure SameLengths (first second : ReadBuffers) : Prop where
  valueIovLen : first.valueIovLen = second.valueIovLen
  numIovs : first.numIovs = second.numIovs

/-- Buffers of the same lengths are limited alike in a round. -/
theorem SameLengths.roundLimits {first second : ReadBuffers} (same : SameLengths first second)
    (media : Media) (valueLen : Nat) (readExact : Bool) (lba : Nat) :
    SameLengths (Nvmkv.roundLimits store media valueLen readExact lba first)
      (Nvmkv.roundLimits store media valueLen readExact lba second) := by
  obtain ⟨length, count⟩ := same
  unfold Nvmkv.roundLimits limitRead
  simp only
  split_ifs
  · exact ⟨rfl, count⟩
  · exact ⟨length, count⟩
  · exact ⟨length, rfl⟩
  · exact ⟨length, count⟩

/-- Which address a byte was read behind does not depend on the contents of the buffers.
Induction follows the addresses. -/
theorem SameLengths.lastReader {first second : ReadBuffers} (same : SameLengths first second)
    (media : Media) (valueLen i : Nat) (lbas : List Nat) :
    Nvmkv.lastReader store media valueLen i lbas first =
      Nvmkv.lastReader store media valueLen i lbas second := by
  induction lbas generalizing first second with
  | nil => rfl
  | cons lba rest inductionHypothesis =>
    have limited : SameLengths (Nvmkv.roundLimits store media valueLen true lba first)
        (Nvmkv.roundLimits store media valueLen true lba second) :=
      same.roundLimits media valueLen true lba
    simp only [Nvmkv.lastReader, inductionHypothesis same, inductionHypothesis limited,
      limited.valueIovLen, limited.numIovs]

/-- A vector dropped in one round is missing in all later ones. -/
theorem roundLimits_single {buffers : ReadBuffers} (single : buffers.numIovs = 1) (media : Media)
    (valueLen : Nat) (readExact : Bool) (lba : Nat) :
    (roundLimits store media valueLen readExact lba buffers).numIovs = 1 := by
  unfold roundLimits limitRead
  simp only
  split_ifs
  · exact single
  · exact single
  · rfl
  · exact single

/-- Where one vector is asked for, no round reads a byte of the value. -/
theorem lastReader_single {media : Media} {valueLen i : Nat} (lbas : List Nat)
    {buffers : ReadBuffers} (single : buffers.numIovs = 1) :
    lastReader store media valueLen i lbas buffers = none := by
  induction lbas generalizing buffers with
  | nil => rfl
  | cons lba rest inductionHypothesis =>
    have limited := @roundLimits_single store _ single media valueLen true lba
    simp only [lastReader, inductionHypothesis single, inductionHypothesis limited, limited,
      Option.none_or]
    split <;> rfl

/-- A round that reads leaves a byte of the value as stored behind its address, when its
lengths take the byte in. -/
theorem readSlot_byte {media : Media} {lba i : Nat} {buffers : ReadBuffers} :
    (readSlot store media lba buffers).value.bytes i =
      if buffers.numIovs = 2 ∧ i < buffers.valueIovLen then
        media.read store.sectorSize lba (store.sectorSize + i)
      else buffers.value.bytes i := by
  simp only [readSlot, readValue]
  by_cases double : buffers.numIovs = 2
  · by_cases inside : i < buffers.valueIovLen
    · rw [if_pos double, if_pos ⟨double, inside⟩,
        Region.copy_inside _ _ ⟨Nat.zero_le i, by omega⟩, Nat.sub_zero]
      rfl
    · rw [if_pos double, if_neg fun taken => inside taken.2]
      exact Region.copy_outside _ _ (.inr (by omega))
  · rw [if_neg double, if_neg fun taken => double taken.1]

/-- The bytes of the value after some rounds of an exact reading. Induction follows the
rounds. -/
theorem passedRounds_byte {media : Media} {valueLen i : Nat} (positive : valueLen ≠ 0)
    {lbas : List Nat} {buffers : ReadBuffers} :
    (passedRounds store media valueLen true lbas buffers).value.bytes i =
      match lastReader store media valueLen i lbas buffers with
      | some reader => media.read store.sectorSize reader (store.sectorSize + i)
      | none => buffers.value.bytes i := by
  induction lbas generalizing buffers with
  | nil => rfl
  | cons lba rest inductionHypothesis =>
    have step : passedRounds store media valueLen true (lba :: rest) buffers =
        passedRounds store media valueLen true rest
          (readRound store media valueLen true lba buffers) := rfl
    rw [step, inductionHypothesis, lastReader]
    cases free : windowFree store media lba with
    | true =>
      have passed : readRound store media valueLen true lba buffers = buffers :=
        if_pos ⟨⟨rfl, positive⟩, free⟩
      rw [passed]
      rfl
    | false =>
      have round : readRound store media valueLen true lba buffers =
          readSlot store media lba (roundLimits store media valueLen true lba buffers) := by
        rw [readRound, if_neg fun passed => by simp [free] at passed]
      have lengths : SameLengths (readRound store media valueLen true lba buffers)
          (roundLimits store media valueLen true lba buffers) := by
        rw [round]
        exact ⟨rfl, rfl⟩
      have value : (roundLimits store media valueLen true lba buffers).value = buffers.value :=
        roundLimits_value media valueLen true lba buffers
      rw [lengths.lastReader]
      simp only [Bool.false_eq_true, if_false]
      cases lastReader store media valueLen i rest
          (roundLimits store media valueLen true lba buffers) with
      | some reader => rfl
      | none =>
        rw [Option.none_or, round, readSlot_byte, value]
        by_cases taken : (roundLimits store media valueLen true lba buffers).numIovs = 2 ∧
            i < (roundLimits store media valueLen true lba buffers).valueIovLen
        · simp only [if_pos taken]
        · simp only [if_neg taken]

/-- The two readings end alike: with the same code, or with the same length, the same
information, and the same bytes as far as the value and the buffer reach. -/
def SameReading (valueLen : Nat) :
    Except NvmErrorCode GetResult → Except NvmErrorCode GetResult → Prop
  | .error first, .error second => first = second
  | .ok first, .ok second =>
      first.length = second.length ∧ first.keyInfo = second.keyInfo ∧
        first.value.slice 0 (min valueLen first.keyInfo.valueLen) =
          second.value.slice 0 (min valueLen first.keyInfo.valueLen)
  | _, _ => False

/-- An exact reading and a plain one of the same length agree, whatever the buffers held
before. -/
def ReadsAlike {ι : Type} (store : NvmKvStore) (thread : ι) (state : StoreState ι)
    (poolId : UInt32) (key : List UInt8) (address valueLen : Nat) : Prop :=
  ∀ bytes readBuf, ∃ exact plain after,
    (kvGet store poolId key ⟨address, bytes⟩ valueLen true (some readBuf)).run
        (answer store thread) state = some (exact, after) ∧
      (kvGet store poolId key ⟨address, bytes⟩ valueLen false (some readBuf)).run
        (answer store thread) state = some (plain, after) ∧
      SameReading valueLen exact plain

/-- The buffers of a reading of some length, without contents. -/
def emptyBuffers (store : NvmKvStore) (valueLen : Nat) : ReadBuffers :=
  getBuffers store (poolBuffer fun _ => 0) valueLen fun _ => 0

/-- Every byte of a value in sectors of its own that is asked for is last read behind the
address of the pair, or behind one on the way that has the same byte there. -/
def ValueTakenIn {ι : Type} (store : NvmKvStore) (state : StoreState ι) (poolId : UInt32)
    (key : List UInt8) (valueLen : Nat) : Prop :=
  ∀ lba, lookupLba store state.media poolId key = some lba →
    pairExpired store state.clock (storedHeader store state.media lba) = false →
    store.sectorSize ≤ (storedHeader store state.media lba).valueOffset →
    ∀ i, i < min valueLen (storedHeader store state.media lba).valueLen →
      ∃ reader, lastReader store state.media valueLen i
          (passedAddresses store state.media poolId key ++ [lba]) (emptyBuffers store valueLen) =
            some reader ∧
        state.media.read store.sectorSize reader (store.sectorSize + i) =
          state.media.read store.sectorSize lba (store.sectorSize + i)

section Reading

variable {media : Media} {poolId : UInt32} {key : List UInt8} {valueLen lba : Nat}

/-- The addresses of a key up to the one where a lookup ends. -/
theorem probes_split (found : lookupLba store media poolId key = some lba) :
    holds store media poolId key lba = true ∧ ∃ later, store.probes poolId key =
      passedAddresses store media poolId key ++ lba :: later ∧
      ∀ passed, passed ∈ passedAddresses store media poolId key →
        holds store media poolId key passed = false := by
  obtain ⟨held, earlier, later, split, missed⟩ := List.find?_eq_some_iff_append.mp found
  have before : passedAddresses store media poolId key = earlier := by
    rw [passedAddresses, split, List.takeWhile_append_of_pos, List.takeWhile_cons_of_neg,
      List.append_nil]
    · simp [held]
    · exact missed
  refine ⟨held, later, by rw [before, split], ?_⟩
  intro passed member
  rw [before] at member
  simpa using missed passed member

/-- The rounds of an exact reading up to the address found. -/
theorem readRounds_passed {readExact : Bool} {buffers : ReadBuffers}
    (found : lookupLba store media poolId key = some lba) :
    readRounds store media poolId key valueLen readExact (store.probes poolId key) buffers =
      passedRounds store media valueLen readExact
        (passedAddresses store media poolId key ++ [lba]) buffers := by
  obtain ⟨held, later, split, missed⟩ := probes_split found
  rw [split, readRounds_split missed held, passedRounds, passedRounds, List.foldl_append]
  rfl

/-- The header buffer of every reading that finds its key has the sector found there,
and behind the sector what it had before. -/
theorem readRounds_buf {readExact : Bool} (nonempty : 0 < key.length) {buffers : ReadBuffers}
    (found : lookupLba store media poolId key = some lba) (i : Nat) :
    (readRounds store media poolId key valueLen readExact (store.probes poolId key) buffers).buf i =
      if i < store.sectorSize then media.read store.sectorSize lba i else buffers.buf i := by
  by_cases inside : i < store.sectorSize
  · obtain ⟨before, rounds⟩ := @readRounds_found store media poolId key valueLen readExact nonempty
      _ _ found buffers
    rw [rounds, if_pos inside]
    exact slotBuffer_inside store media _ lba inside
  · rw [if_neg inside]
    generalize store.probes poolId key = lbas
    clear found
    induction lbas generalizing buffers with
    | nil => rfl
    | cons next rest inductionHypothesis =>
      have round : (readRound store media valueLen readExact next buffers).buf i =
          buffers.buf i := by
        rw [readRound]
        split
        · rfl
        · have limited : (roundLimits store media valueLen readExact next buffers).buf =
              buffers.buf := by
            unfold roundLimits limitRead
            simp only
            split_ifs <;> rfl
          rw [readSlot, limited]
          exact Region.copy_outside _ _ (.inr (by omega))
      simp only [readRounds]
      split
      · exact round
      · rw [inductionHypothesis, round]

end Reading

section Agreement

variable {ι : Type} {thread : ι} {state : StoreState ι} {poolId : UInt32} {key : List UInt8}
  {address valueLen lba : Nat}

/-- A plain reading delivers the sectors behind the pair, an exact one those behind the
address where each byte was read last. -/
theorem rounds_bytes (nonempty : 0 < key.length)
    (valid : kvValidateValue store true valueLen = true) {media : Media}
    (found : lookupLba store media poolId key = some lba) (bytes readBuf : Region) {i : Nat}
    (inside : i < valueLen) :
    (readRounds store media poolId key valueLen false (store.probes poolId key)
      (getBuffers store ⟨address, bytes⟩ valueLen readBuf)).value.bytes i =
        media.read store.sectorSize lba (store.sectorSize + i) ∧
    (readRounds store media poolId key valueLen true (store.probes poolId key)
      (getBuffers store ⟨address, bytes⟩ valueLen readBuf)).value.bytes i =
        match lastReader store media valueLen i
            (passedAddresses store media poolId key ++ [lba]) (emptyBuffers store valueLen) with
        | some reader => media.read store.sectorSize reader (store.sectorSize + i)
        | none => bytes i := by
  have limit : (nvmKvMaxValueSize : Nat) = 1047552 := rfl
  have bounded : valueLen ≤ nvmKvMaxValueSize := (of_decide_eq_true valid).2.1
  constructor
  · obtain ⟨held, later, split, missed⟩ := probes_split found
    have full : ReadsValue (getBuffers store ⟨address, bytes⟩ valueLen readBuf) valueLen :=
      ⟨rfl, (store.round_upto_sector_bounds valueLen (by omega)).1⟩
    obtain ⟨before, rounds, double, enough⟩ := @readRounds_reads store media poolId key valueLen
      valueLen lba false _ later (getBuffers store ⟨address, bytes⟩ valueLen readBuf) nonempty
      (by omega) missed held full fun exact => Bool.noConfusion exact
    rw [split, rounds, readSlot_byte, if_pos ⟨double, by omega⟩]
  · have lengths : SameLengths (getBuffers store ⟨address, bytes⟩ valueLen readBuf)
        (emptyBuffers store valueLen) := ⟨rfl, rfl⟩
    rw [readRounds_passed found, passedRounds_byte (by omega), lengths.lastReader]
    rfl

/-- With a buffer that the device takes, the two readings agree just when the last windows take in
every byte asked for. A byte that no round takes in keeps what the caller's buffer held. -/
theorem readsAlike_iff (accepted : keyAccepted state poolId key = true)
    (valid : kvValidateValue store true valueLen = true)
    (readable : ∀ bytes readBuf,
      Readable store (getBuffers store ⟨address, bytes⟩ valueLen readBuf)) :
    ReadsAlike store thread state poolId key address valueLen ↔
      ValueTakenIn store state poolId key valueLen := by
  have nonempty : 0 < key.length := by
    simp only [keyAccepted, Bool.and_eq_true] at accepted
    exact (of_decide_eq_true accepted.2).1
  have ran (bytes readBuf : Region) (readExact : Bool) :=
    @run_kvGet _ store thread state poolId key ⟨address, bytes⟩ valueLen readExact readBuf accepted
      valid (readable bytes readBuf)
  constructor
  · intro alike lba found unexpired own i inside
    obtain ⟨exact, plain, after, ranExact, ranPlain, same⟩ := alike
      (fun _ => state.media.read store.sectorSize lba (store.sectorSize + i) + 1) fun _ => 0
    rw [ran, Option.some.injEq, Prod.mk.injEq] at ranExact ranPlain
    obtain ⟨rfl, -⟩ := ranExact
    obtain ⟨rfl, -⟩ := ranPlain
    simp only [getAnswer, found, unexpired, Bool.false_eq_true, if_false, SameReading] at same
    have byte := Region.eq_of_slice_eq same.2.2 (i := i) ⟨Nat.zero_le i, by
      simpa [getResult, keyInfoOf] using inside⟩
    obtain ⟨plainByte, exactByte⟩ := @rounds_bytes store poolId key address valueLen lba nonempty
      valid _ found (fun _ => state.media.read store.sectorSize lba (store.sectorSize + i) + 1)
      (fun _ => 0) i (by omega)
    simp only [getResult, gotValue, if_neg (Nat.not_lt.mpr own), plainByte, exactByte] at byte
    cases last : lastReader store state.media valueLen i
        (passedAddresses store state.media poolId key ++ [lba]) (emptyBuffers store valueLen) with
    | some reader =>
      rw [last] at byte
      exact ⟨reader, rfl, byte⟩
    | none =>
      rw [last] at byte
      exact absurd byte (by simp)
  · intro takenIn bytes readBuf
    refine ⟨_, _, _, ran bytes readBuf true, ran bytes readBuf false, ?_⟩
    unfold getAnswer
    cases found : lookupLba store state.media poolId key with
    | none => rfl
    | some lba =>
      cases unexpired : pairExpired store state.clock (storedHeader store state.media lba) with
      | true =>
        simp only [unexpired, if_true]
        rfl
      | false =>
        simp only [unexpired, Bool.false_eq_true, if_false]
        refine ⟨rfl, rfl, ?_⟩
        apply Region.slice_congr
        intro i _ inside
        simp only [getResult, keyInfoOf, Nat.zero_add] at inside ⊢
        unfold gotValue
        by_cases shares : (storedHeader store state.media lba).valueOffset < store.sectorSize
        · simp only [if_pos shares]
          rw [Region.copy_inside _ _ ⟨Nat.zero_le i, by omega⟩,
            Region.copy_inside _ _ ⟨Nat.zero_le i, by omega⟩]
          simp only [Region.drop, readRounds_buf nonempty found]
        · simp only [if_neg shares]
          obtain ⟨plainByte, exactByte⟩ := @rounds_bytes store poolId key address valueLen lba
            nonempty valid _ found bytes readBuf i (by omega)
          obtain ⟨reader, last, same⟩ := takenIn lba found unexpired (Nat.not_lt.mp shares) i inside
          rw [last] at exactByte
          rw [plainByte, exactByte]
          exact same

/-- The first window on the way that is not free has a run of more than one sector. -/
def FirstRunLong (store : NvmKvStore) (media : Media) (lbas : List Nat) : Prop :=
  match lbas.find? fun lba => !windowFree store media lba with
  | none => False
  | some lba => 1 < (media.rangeExists ⟨lba, store.maxSearchRange⟩).length

/-- An exact reading that is refused its two vectors ends with the refusal when it asks
for both of them at the first mapped window. Behind a run of one sector it asks for the
header only, and is not refused any more. -/
theorem run_kvReadMediaProbes_refused (nonempty : 0 < key.length)
    (short : key.length ≤ nvmKvMaxKeySize) (positive : valueLen ≠ 0) {buffers : ReadBuffers}
    (refused : ¬Readable store buffers) (lbas : List Nat) :
    ∃ result, (kvReadMediaProbes store poolId key valueLen true lbas buffers).run
        (answer store thread) state = some (result, state) ∧
      (result = .error (refusal store) ↔ FirstRunLong store state.media lbas) ∧
      ∀ code, result = .error code → code = .objectNotFound ∨ code = refusal store := by
  have different : NvmErrorCode.objectNotFound ≠ refusal store := by
    unfold refusal
    split <;> decide
  induction lbas with
  | nil =>
    refine ⟨.error .objectNotFound, rfl, ?_, ?_⟩
    · simp [FirstRunLong, different]
    · rintro _ ⟨⟩
      exact .inl rfl
  | cons lba rest inductionHypothesis =>
    by_cases empty : (state.media.rangeExists ⟨lba, store.maxSearchRange⟩).length = 0
    · have free : windowFree store state.media lba = true := decide_eq_true empty
      obtain ⟨result, ran, ends⟩ := inductionHypothesis
      refine ⟨result, ?_, ?_⟩
      · simp only [kvReadMediaProbes, positive, ne_eq, not_false_eq_true, and_self, if_true,
          Program.run_bind, run_kvRangeExists,
          Option.bind_some, empty, if_true, ran]
      · simpa [FirstRunLong, free] using ends
    · have mapped : windowFree store state.media lba = false := decide_eq_false empty
      have rest_bytes := @run_rest store state.media lba
      have sector := store.sector_positive
      by_cases long : 1 < (state.media.rangeExists ⟨lba, store.maxSearchRange⟩).length
      · have nonzero : ((state.media.rangeExists ⟨lba, store.maxSearchRange⟩).length *
            store.sectorSize - store.sectorSize) % 2 ^ 32 ≠ 0 := by
          rw [rest_bytes]
          exact (Nat.mul_pos (by omega) sector).ne'
        have limits : ¬Readable store (limitRead store valueLen
            (state.media.rangeExists ⟨lba, store.maxSearchRange⟩) buffers) := by
          intro limited
          simp only [limitRead, if_pos nonzero] at limited
          apply refused
          split at limited
          · exact ⟨limited.fits, limited.aligned⟩
          · exact limited
        refine ⟨.error (refusal store), ?_, ?_, ?_⟩
        · simp only [kvReadMediaProbes, positive, ne_eq, not_false_eq_true, and_self, if_true,
          Program.run_bind, run_kvRangeExists,
            Option.bind_some, empty, if_false, kvReadMediaAt, run_nvmReadv_refused limits]
          rfl
        · simp [FirstRunLong, mapped, long]
        · rintro _ ⟨⟩
          exact .inr rfl
      · have zero : ((state.media.rangeExists ⟨lba, store.maxSearchRange⟩).length *
            store.sectorSize - store.sectorSize) % 2 ^ 32 = 0 := by
          rw [rest_bytes, Nat.sub_eq_zero_of_le (by omega), Nat.zero_mul]
        have same : (kvReadMediaProbes store poolId key valueLen true (lba :: rest) buffers).run
              (answer store thread) state =
            (kvReadMediaProbes store poolId key valueLen true (lba :: rest)
              { buffers with numIovs := 1 }).run (answer store thread) state := by
          simp only [kvReadMediaProbes, positive, ne_eq, not_false_eq_true, and_self, if_true,
          Program.run_bind, run_kvRangeExists,
            Option.bind_some, empty, if_false, limitRead, zero, ne_eq, not_true_eq_false]
        obtain ⟨readLen, ran⟩ := run_kvReadMediaProbes store thread state poolId valueLen true
          nonempty short (lba :: rest) { buffers with numIovs := 1 } (readable_sector store rfl)
        rw [same, ran]
        refine ⟨_, rfl, ?_, ?_⟩
        · have notLong : ¬FirstRunLong store state.media (lba :: rest) := by
            simpa [FirstRunLong, mapped] using long
          simp only [notLong, iff_false]
          cases (lba :: rest).find? (holds store state.media poolId key) with
          | none => simpa using different
          | some found =>
            intro wrong
            cases wrong
        · cases (lba :: rest).find? (holds store state.media poolId key) with
          | none =>
            rintro _ ⟨⟩
            exact .inl rfl
          | some found =>
            intro _ wrong
            cases wrong

/-- A reading whose vectors the device refuses returns the refusal just when the loop
over the addresses does. -/
theorem run_kvGet_refusal {readExact : Bool} {value : Memory} {readBuf : Region}
    (accepted : keyAccepted state poolId key = true)
    (valid : kvValidateValue store true valueLen = true)
    {result : Except NvmErrorCode MediaRead}
    (ran : (kvReadMediaProbes store poolId key valueLen readExact (store.probes poolId key)
      (getBuffers store value valueLen readBuf)).run (answer store thread) state =
        some (result, state)) :
    ∃ ended after, (kvGet store poolId key value valueLen readExact (some readBuf)).run
        (answer store thread) state = some (ended, after) ∧
      ∀ code, code ≠ .objectNotFound →
        (ended = .error code ↔ result = .error code) ∧ (ended = .error code → after = state) := by
  simp only [keyAccepted, Bool.and_eq_true] at accepted
  obtain ⟨pool, validKey⟩ := accepted
  have positive : 0 < valueLen := (of_decide_eq_true valid).1
  have read : kvReadMedia store poolId key value valueLen readBuf readExact =
      kvReadMediaProbes store poolId key valueLen readExact (store.probes poolId key)
        (getBuffers store value valueLen readBuf) := by
    simp only [kvReadMedia, if_pos positive]
    rfl
  simp only [kvGet, Program.run_bind, run_kvValidatePoolId, Option.bind_some, pool, validKey,
    valid, Bool.not_true, Bool.or_self, Bool.false_eq_true, if_false, read, ran]
  cases result with
  | error code => exact ⟨_, _, rfl, fun _ _ => ⟨by simp, fun _ => rfl⟩⟩
  | ok got =>
    simp only [Program.run_bind, run_kvExpire_queue]
    cases pairExpired store state.clock (readHeader got.buf) with
    | true =>
      refine ⟨_, _, rfl, fun code other => ⟨?_, ?_⟩⟩
      · simp [Ne.symm other]
      · rintro ⟨⟩
        exact absurd rfl other
    | false => exact ⟨_, _, rfl, fun _ _ => ⟨by simp, fun wrong => by cases wrong⟩⟩

/-- When the device refuses the two vectors, the plain reading ends with the refusal. -/
theorem readsAlike_refused (accepted : keyAccepted state poolId key = true)
    (valid : kvValidateValue store true valueLen = true)
    (refused : ∀ bytes readBuf,
      ¬Readable store (getBuffers store ⟨address, bytes⟩ valueLen readBuf)) :
    ReadsAlike store thread state poolId key address valueLen ↔
      FirstRunLong store state.media (store.probes poolId key) := by
  obtain ⟨nonempty, short⟩ : 0 < key.length ∧ key.length ≤ nvmKvMaxKeySize := by
    simp only [keyAccepted, Bool.and_eq_true] at accepted
    exact of_decide_eq_true accepted.2
  have positive : valueLen ≠ 0 := (of_decide_eq_true valid).1.ne'
  have different : refusal store ≠ .objectNotFound := by
    unfold refusal
    split <;> decide
  have ends (bytes readBuf : Region) :
      ∃ exact after, (kvGet store poolId key ⟨address, bytes⟩ valueLen true (some readBuf)).run
          (answer store thread) state = some (exact, after) ∧
        (exact = .error (refusal store) ↔
          FirstRunLong store state.media (store.probes poolId key)) ∧
        (exact = .error (refusal store) → after = state) ∧
        (kvGet store poolId key ⟨address, bytes⟩ valueLen false (some readBuf)).run
          (answer store thread) state = some (.error (refusal store), state) := by
    have limits := refused bytes readBuf
    obtain ⟨result, ran, long, -⟩ := @run_kvReadMediaProbes_refused store _ thread state poolId key
      valueLen nonempty short positive _ limits (store.probes poolId key)
    obtain ⟨exact, after, ranExact, ended⟩ := run_kvGet_refusal accepted valid ran
    obtain ⟨same, kept⟩ := ended _ different
    exact ⟨exact, after, ranExact, same.trans long, kept,
      run_kvGet_plain_refused accepted valid limits⟩
  constructor
  · intro alike
    obtain ⟨exact, plain, last, ranExact, ranPlain, same⟩ := alike (fun _ => 0) fun _ => 0
    obtain ⟨ended, after, ran, long, -, refusedPlain⟩ := ends (fun _ => 0) fun _ => 0
    rw [ran, Option.some.injEq, Prod.mk.injEq] at ranExact
    rw [refusedPlain, Option.some.injEq, Prod.mk.injEq] at ranPlain
    obtain ⟨rfl, -⟩ := ranExact
    obtain ⟨rfl, -⟩ := ranPlain
    apply long.mp
    cases ended with
    | error code => exact congrArg _ same
    | ok got => exact same.elim
  · intro long bytes readBuf
    obtain ⟨ended, after, ran, ends, kept, refusedPlain⟩ := ends bytes readBuf
    have returned := ends.mpr long
    obtain rfl := kept returned
    subst returned
    exact ⟨_, _, _, ran, refusedPlain, rfl⟩

/-- What an exact reading needs to be like a plain one: with a buffer that the device
takes, every byte asked for is taken in last behind the right address; with one that it
refuses, the first mapped window has a run of more than one sector. -/
def ExactReadAgrees (store : NvmKvStore) (state : StoreState ι) (poolId : UInt32)
    (key : List UInt8) (address valueLen : Nat) : Prop :=
  if 2 ≤ store.capabilities.nvmMaxNumIovs ∧ address % store.sectorSize = 0 then
    ValueTakenIn store state poolId key valueLen
  else FirstRunLong store state.media (store.probes poolId key)

end Agreement

/-- An exact reading of an accepted length is like a plain one just when its rounds take
in every byte of the value behind the right address. A key that is not accepted fails
both alike. -/
theorem exact_reads_iff {ι : Type} (store : NvmKvStore) (thread : ι) (state : StoreState ι)
    (poolId : UInt32) (key : List UInt8) (address valueLen : Nat)
    (valid : kvValidateValue store true valueLen = true) :
    ReadsAlike store thread state poolId key address valueLen ↔
      (keyAccepted state poolId key = true →
        ExactReadAgrees store state poolId key address valueLen) := by
  cases accepted : keyAccepted state poolId key with
  | false =>
    have rejected : (!decide (poolStatus state.inUse state.deleted poolId = .poolInUse ∨
        poolId = 0xFFFFFFFF) || !kvValidateKey key) = true := by
      simpa only [keyAccepted, Bool.and_eq_false_iff, Bool.or_eq_true, Bool.not_eq_true'] using
        accepted
    simp only [Bool.false_eq_true, false_implies, iff_true]
    intro bytes readBuf
    refine ⟨.error .invalidInput, .error .invalidInput, state, ?_, ?_, rfl⟩
    all_goals
      simp only [kvGet, Program.run_bind, run_kvValidatePoolId, Option.bind_some, rejected,
        Bool.true_or, if_true]
      rfl
  | true =>
    simp only [true_implies, ExactReadAgrees]
    by_cases taken : 2 ≤ store.capabilities.nvmMaxNumIovs ∧ address % store.sectorSize = 0
    · rw [if_pos taken]
      exact readsAlike_iff accepted valid fun _ _ => ⟨taken.1, fun _ => taken.2⟩
    · rw [if_neg taken]
      exact readsAlike_refused accepted valid
        fun _ _ readable => taken ⟨readable.fits, readable.aligned rfl⟩

/-- Every pair that a probe position could report has all the sectors its header
announces. -/
def FullyMapped (store : NvmKvStore) (media : Media) : Prop :=
  ∀ poolId key lba, 0 < key.length → holds store media poolId key lba = true →
    ∀ l, lba ≤ l →
      l < lba + (if (storedHeader store media lba).valueOffset < store.sectorSize then 1
        else 1 + valueSectors store.capabilities (storedHeader store media lba).valueLen) →
      (media l).isSome

/-- Two keys with the same slot. -/
def earlierKey : List UInt8 := [102, 109, 107]

/-- A key whose first address is that of another one. -/
def laterKey : List UInt8 := [113, 109, 98]

/-- The slot of the two keys, where the earlier pair lies, and the next one. -/
def sharedLba : Nat := NvmKvStore.terabyteStore.probeLba 0 laterKey 0

/-- The address behind it, where the later key is stored. -/
def nextLba : Nat := NvmKvStore.terabyteStore.probeLba 0 laterKey 1

/-- A pair of one sector, and behind it on the way of the other key a pair whose value
has a sector of its own. -/
def collidingMedia : Media := fun l =>
  if l = sharedLba then some (writeHeader (fun _ => 0) 0 earlierKey 1 27 0 0)
  else if l = nextLba then some (writeHeader (fun _ => 0) 0 laterKey 512 512 0 0)
  else if l = nextLba + 1 then some fun _ => 0
  else none

/-- The shared address has the pair of the earlier key. -/
theorem collidingMedia_shared : collidingMedia sharedLba =
    some (writeHeader (fun _ => 0) 0 earlierKey 1 27 0 0) := if_pos rfl

/-- The next address has the header of the later one. -/
theorem collidingMedia_next : collidingMedia nextLba =
    some (writeHeader (fun _ => 0) 0 laterKey 512 512 0 0) := by
  have apart : nextLba ≠ sharedLba := by decide +kernel
  rw [collidingMedia, if_neg apart, if_pos rfl]

/-- Its value is in the sector behind. -/
theorem collidingMedia_value : collidingMedia (nextLba + 1) = some fun _ => 0 := by
  have apart : nextLba + 1 ≠ sharedLba := by decide +kernel
  rw [collidingMedia, if_neg apart, if_neg (by omega), if_pos rfl]

/-- No other sector is mapped. -/
theorem collidingMedia_unmapped {l : Nat} (shared : l ≠ sharedLba) (next : l ≠ nextLba)
    (value : l ≠ nextLba + 1) : collidingMedia l = none := by
  rw [collidingMedia, if_neg shared, if_neg next, if_neg value]

/-- So every stored pair is mapped with all of its sectors. -/
theorem collidingMedia_mapped : FullyMapped NvmKvStore.terabyteStore collidingMedia := by
  intro poolId key lba nonempty held l lower upper
  by_cases shared : lba = sharedLba
  · subst shared
    rw [storedHeader_sector collidingMedia_shared, readHeader_writeHeader] at upper
    obtain rfl : l = sharedLba := by
      simp only at upper
      rw [if_pos (by decide)] at upper
      omega
    rw [collidingMedia_shared]
    rfl
  · by_cases next : lba = nextLba
    · subst next
      rw [storedHeader_sector collidingMedia_next, readHeader_writeHeader] at upper
      have place : l = nextLba ∨ l = nextLba + 1 := by
        simp only at upper
        rw [if_neg (by decide)] at upper
        have sectors : valueSectors NvmKvStore.terabyteStore.capabilities (512 % 2 ^ 32) = 1 := by
          decide
        omega
      rcases place with rfl | rfl
      · rw [collidingMedia_next]
        rfl
      · rw [collidingMedia_value]
        rfl
    · by_cases value : lba = nextLba + 1
      · subst value
        rw [storedHeader_sector collidingMedia_value] at upper
        obtain rfl : l = nextLba + 1 := by
          rw [if_pos (by decide)] at upper
          omega
        rw [collidingMedia_value]
        rfl
      · rw [holds_unmapped nonempty (collidingMedia_unmapped shared next value)] at held
        exact Bool.noConfusion held

/-- The store of a terabyte over these media. -/
def collidingState : StoreState Unit := .opened collidingMedia (fun _ => false) 0

/-- The later key is found behind the pair of the earlier one. -/
theorem collidingMedia_lookup :
    lookupLba NvmKvStore.terabyteStore collidingMedia 0 laterKey = some nextLba ∧
      passedAddresses NvmKvStore.terabyteStore collidingMedia 0 laterKey = [sharedLba] := by
  have addresses : NvmKvStore.terabyteStore.probes 0 laterKey = sharedLba :: nextLba ::
      (List.range' 2 6).map (NvmKvStore.terabyteStore.probeLba 0 laterKey) := rfl
  have missed : holds NvmKvStore.terabyteStore collidingMedia 0 laterKey sharedLba = false := by
    rw [holds_sector (by decide) collidingMedia_shared,
      headerMatches_writeHeader _ _ _ _ _ _ _ _ _ (by decide)]
    rfl
  have held : holds NvmKvStore.terabyteStore collidingMedia 0 laterKey nextLba = true := by
    rw [holds_sector (by decide) collidingMedia_next,
      headerMatches_writeHeader _ _ _ _ _ _ _ _ _ (by decide)]
    rfl
  constructor
  · rw [lookupLba, addresses, List.find?_cons_of_neg (by simp [missed]),
      List.find?_cons_of_pos held]
  · rw [passedAddresses, addresses, List.takeWhile_cons_of_pos (by simp [missed]),
      List.takeWhile_cons_of_neg (by simp [held])]

/-- The earlier pair shares the sector of its header, so that both readings deliver it. -/
theorem exact_reads_earlier :
    ReadsAlike NvmKvStore.terabyteStore () collidingState 0 earlierKey 0 512 := by
  refine (exact_reads_iff NvmKvStore.terabyteStore () collidingState 0 earlierKey 0 512
    (by decide)).mpr fun _ => ?_
  have taken : 2 ≤ NvmKvStore.terabyteStore.capabilities.nvmMaxNumIovs ∧
      0 % NvmKvStore.terabyteStore.sectorSize = 0 := by decide
  rw [ExactReadAgrees, if_pos taken]
  intro lba found _ own
  have address : NvmKvStore.terabyteStore.probeLba 0 earlierKey 0 = sharedLba := by decide +kernel
  have addresses : NvmKvStore.terabyteStore.probes 0 earlierKey =
      NvmKvStore.terabyteStore.probeLba 0 earlierKey 0 ::
        (List.range' 1 7).map (NvmKvStore.terabyteStore.probeLba 0 earlierKey) := rfl
  have held : holds NvmKvStore.terabyteStore collidingMedia 0 earlierKey
      (NvmKvStore.terabyteStore.probeLba 0 earlierKey 0) = true := by
    rw [address, holds_sector (by decide) collidingMedia_shared,
      headerMatches_writeHeader _ _ _ _ _ _ _ _ _ (by decide)]
    rfl
  have first : lba = sharedLba := by
    rw [lookupLba, addresses] at found
    rw [← address]
    exact (Option.some.inj ((List.find?_cons_of_pos held).symm.trans found)).symm
  subst first
  have header := @storedHeader_sector NvmKvStore.terabyteStore _ _ _ collidingMedia_shared
  rw [readHeader_writeHeader] at header
  exact absurd (header ▸ own) (by decide)

/-- The run of one sector at the shared slot leaves one vector for all later rounds: the
exact reading finds the pair, reports its length, and delivers none of its bytes. -/
theorem exact_read_delivers_nothing :
    ¬∀ (store : NvmKvStore) (state : StoreState Unit) (poolId : UInt32) (key : List UInt8)
      (address valueLen : Nat), FullyMapped store state.media →
      kvValidateValue store true valueLen = true → address % store.sectorSize = 0 →
      ReadsAlike store () state poolId key address valueLen := by
  intro alike
  have reads := alike NvmKvStore.terabyteStore collidingState 0 laterKey 0 512
    collidingMedia_mapped (by decide) rfl
  have vectors : 2 ≤ NvmKvStore.terabyteStore.capabilities.nvmMaxNumIovs := by decide
  have takenIn := (@readsAlike_iff NvmKvStore.terabyteStore _ () collidingState 0
    laterKey 0 512 (by decide) (by decide) fun _ _ => ⟨vectors, fun _ => rfl⟩).mp reads
  obtain ⟨found, passed⟩ := collidingMedia_lookup
  have header : storedHeader NvmKvStore.terabyteStore collidingMedia nextLba =
      { keyLen := 3, valueLen := 512, valueOffset := 512, poolId := 0, genCount := 0,
        expiry := 0 } := by
    rw [storedHeader_sector collidingMedia_next, readHeader_writeHeader]
    rfl
  obtain ⟨reader, last, -⟩ := takenIn nextLba found rfl (header ▸ by decide) 0
    (header ▸ by decide)
  have next : sharedLba + 1 ≠ nextLba ∧ sharedLba ≠ nextLba := by decide +kernel
  have run : (collidingMedia.rangeExists
      ⟨sharedLba, NvmKvStore.terabyteStore.maxSearchRange⟩).length = 1 := by
    apply Media.rangeExists_run_ends (by decide) (by decide)
    · intro i inside
      obtain rfl : i = 0 := by omega
      rw [Nat.add_zero, collidingMedia_shared]
      rfl
    · exact collidingMedia_unmapped (by omega) next.1 fun same => next.2 (Nat.succ_inj.mp same)
  have mapped : windowFree NvmKvStore.terabyteStore collidingMedia sharedLba = false := by
    rw [windowFree, run]
    rfl
  have limited : (roundLimits NvmKvStore.terabyteStore collidingMedia 512 true sharedLba
      (emptyBuffers NvmKvStore.terabyteStore 512)).numIovs = 1 := by
    rw [roundLimits, if_pos ⟨rfl, by decide⟩, limitRead]
    simp only [run]
    rfl
  have none : lastReader NvmKvStore.terabyteStore collidingMedia 512 0 [sharedLba, nextLba]
      (emptyBuffers NvmKvStore.terabyteStore 512) = none := by
    rw [lastReader, if_neg (by simp [mapped])]
    simp only [lastReader_single _ limited, limited, Option.none_or]
    rfl
  exact absurd (none.symm.trans (passed ▸ last)) (by simp)

end Nvmkv
