import Nvmkv.ExactReadsAgree

/-!
# The caller's value buffer in `kv_get` and `kv_batch_get`

`kv_get` fills the caller's buffer in two ways. The device reads the sectors behind the header
into it: the second vector has the length of the buffer, which is accepted only when it is
whole sectors, and an exact reading makes the vector shorter and never longer. A value that
shares the sector of the header is copied from there by the length that the header states, and
this length is compared with that of the buffer only for what is returned.

So the bytes behind the buffer are kept exactly when the header found states no more than the
buffer holds, or its value lies in the sectors behind it. Whether anything is written where it
should not be is told by what the buffer held before: a byte is kept when it is the same
whatever it was. `kv_batch_get` calls `kv_get` for each pair until one of the calls fails.
-/

namespace Nvmkv

variable {ι : Type}

/-- The vectors behind that of the header are no longer than the caller's buffer. -/
def StoreOp.Within (valueLen : Nat) : StoreOp → Prop
  | .readv iovec => ∀ vector ∈ iovec.tail, vector.iovLen ≤ valueLen
  | _ => True

/-- What `kv_get` delivers lies in the first bytes of the caller's buffer, whatever the buffer
held: the device is given no longer vector, and the bytes behind stay the same. -/
structure GetConfined (store : NvmKvStore) (thread : ι) (state : StoreState ι) (poolId : UInt32)
    (key : List UInt8) (address valueLen : Nat) (readExact : Bool) (buf : Option Region) :
    Prop where
  read : ∀ bytes, ∀ op ∈ (kvGet store poolId key ⟨address, bytes⟩ valueLen readExact buf).asked
    (answer store thread) state, op.Within valueLen
  copied : ∀ bytes got after, (kvGet store poolId key ⟨address, bytes⟩ valueLen readExact buf).run
    (answer store thread) state = some (.ok got, after) → ∀ i, valueLen ≤ i → got.value i = bytes i

/-- The device takes the vectors of a reading: both of them, or only that of the header when an
exact reading finds one sector mapped at the first window that is not free. -/
def ReadsTaken (store : NvmKvStore) (media : Media) (poolId : UInt32) (key : List UInt8)
    (address : Nat) (readExact : Bool) : Prop :=
  (2 ≤ store.capabilities.nvmMaxNumIovs ∧ address % store.sectorSize = 0) ∨
    (readExact = true ∧ ¬FirstRunLong store media (store.probes poolId key))

/-- What a call of `kv_get` needs to come to a header. -/
structure GetReaches (store : NvmKvStore) (state : StoreState ι) (poolId : UInt32)
    (key : List UInt8) (address valueLen : Nat) (readExact : Bool) (buf : Option Region)
    (hdr : NvmKvHeader) : Prop where
  accepted : keyAccepted state poolId key = true
  valid : kvValidateValue store true valueLen = true
  allocated : buf.isSome = true
  taken : ReadsTaken store state.media poolId key address readExact
  found : liveHeader store state poolId key = some hdr

/-- The value of the pair found fits into the caller's buffer when it shares the sector of the
header. -/
def GetFits (store : NvmKvStore) (state : StoreState ι) (poolId : UInt32) (key : List UInt8)
    (address valueLen : Nat) (readExact : Bool) (buf : Option Region) : Prop :=
  ∀ hdr, GetReaches store state poolId key address valueLen readExact buf hdr →
    hdr.valueOffset < store.sectorSize → hdr.valueLen ≤ valueLen

section Vectors

variable {store : NvmKvStore} {poolId : UInt32} {key : List UInt8} {valueLen : Nat}

/-- The vector of the value is as long as the buffers say. -/
theorem within_readIovec {buffers : ReadBuffers} (short : buffers.valueIovLen ≤ valueLen)
    (lba : Nat) : (StoreOp.readv (readIovec store buffers lba)).Within valueLen := by
  unfold readIovec
  intro vector listed
  split at listed
  · rw [List.tail_cons, List.mem_singleton] at listed
    rw [listed]
    exact short
  · exact absurd listed List.not_mem_nil

/-- A reading of such vectors stays within the buffer. -/
theorem within_nvmReadv {iovec : List NvmIovec} (within : (StoreOp.readv iovec).Within valueLen) :
    (nvmReadv store iovec).Calls (StoreOp.Within valueLen) := by
  unfold nvmReadv
  split_ifs
  · trivial
  · trivial
  · refine Program.Calls.bind (Program.Calls.perform within) fun read => ?_
    cases read <;> trivial

/-- An existence check reads no vector. -/
theorem within_kvRangeExists (search : NvmBlockRange) :
    (kvRangeExists search).Calls (StoreOp.Within valueLen) := by
  refine Program.Calls.bind (Program.Calls.perform trivial) fun found => ?_
  cases found <;> trivial

/-- Nor does the check of an expiry time. -/
theorem within_kvExpire (hdr : NvmKvHeader) (lba : Nat) :
    (kvExpire store hdr lba true).Calls (StoreOp.Within valueLen) := by
  unfold kvExpire
  refine Program.Calls.ite trivial ?_
  refine Program.Calls.bind (Program.Calls.perform trivial) fun curTime => ?_
  refine Program.Calls.ite ?_ trivial
  rw [Bool.not_true, if_neg Bool.false_ne_true]
  refine Program.Calls.bind (Program.Calls.perform trivial) fun queued => ?_
  cases queued <;> trivial

/-- A reading at one address stays within when the reading behind it does, which starts with buffers
of the same length. -/
theorem within_kvReadMediaAt {lba : Nat} {buffers : ReadBuffers}
    {next : ReadBuffers → StoreM (Except NvmErrorCode MediaRead)}
    (short : buffers.valueIovLen ≤ valueLen)
    (further : ∀ after : ReadBuffers, after.valueIovLen = buffers.valueIovLen →
      (next after).Calls (StoreOp.Within valueLen)) :
    (kvReadMediaAt store poolId key lba buffers next).Calls (StoreOp.Within valueLen) := by
  refine Program.Calls.bind (within_nvmReadv (within_readIovec short lba)) fun read => ?_
  cases read with
  | error code => trivial
  | ok regions =>
    dsimp only
    split_ifs
    · trivial
    · exact further _ rfl

/-- Induction is on the addresses: each round leaves the next one a length that is no longer
than the buffer. -/
theorem within_kvReadMediaProbes (valid : kvValidateValue store true valueLen = true)
    {readExact : Bool} {lbas : List Nat} {buffers : ReadBuffers}
    (short : buffers.valueIovLen ≤ valueLen) :
    (kvReadMediaProbes store poolId key valueLen readExact lbas buffers).Calls
      (StoreOp.Within valueLen) := by
  induction lbas generalizing buffers with
  | nil => trivial
  | cons lba rest inductionHypothesis =>
    unfold kvReadMediaProbes
    split_ifs
    · refine Program.Calls.bind (within_kvRangeExists _) fun found => ?_
      split
      · have limited := limitRead_short valid short
        exact within_kvReadMediaAt (limited _) fun after same =>
          inductionHypothesis (same.trans_le (limited _))
      · exact inductionHypothesis short
      · trivial
    · exact within_kvReadMediaAt short fun after same => inductionHypothesis (same.trans_le short)

/-- `kv_get` gives the device no vector that is longer than the caller's buffer. -/
theorem within_kvGet {readExact : Bool} {value : Memory} {buf : Option Region} :
    (kvGet store poolId key value valueLen readExact buf).Calls (StoreOp.Within valueLen) := by
  refine Program.Calls.bind (Program.Calls.bind (Program.Calls.perform trivial) fun _ => trivial)
    fun pool => ?_
  split_ifs with refused
  · trivial
  · rw [Bool.not_eq_true, Bool.or_eq_false_iff, Bool.not_eq_false'] at refused
    have whole := (roundUpto_valid refused.2).1
    cases buf with
    | none => trivial
    | some buf =>
      refine Program.Calls.bind (within_kvReadMediaProbes refused.2 whole.le) fun read => ?_
      cases read with
      | error code => trivial
      | ok read =>
        refine Program.Calls.bind (within_kvExpire _ _) fun expired => ?_
        cases expired <;> trivial

end Vectors

section Bytes

variable {store : NvmKvStore} {media : Media} {poolId : UInt32} {key : List UInt8}
  {valueLen : Nat}

/-- What is delivered behind the buffer: the bytes copied from behind the header by the length
that it states, or what was there. The header's sector ends before, so these bytes are those
behind it in the buffer that the sector was read into. -/
theorem gotValue_beyond (valid : kvValidateValue store true valueLen = true)
    (nonempty : 0 < key.length) {readExact : Bool} {lba : Nat}
    (found : lookupLba store media poolId key = some lba) {buffers : ReadBuffers}
    (short : buffers.valueIovLen ≤ valueLen) {i : Nat} (beyond : valueLen ≤ i) :
    gotValue store media (readRounds store media poolId key valueLen readExact
        (store.probes poolId key) buffers) lba i =
      if (storedHeader store media lba).valueOffset < store.sectorSize ∧
          i < (storedHeader store media lba).valueLen then
        buffers.buf ((storedHeader store media lba).valueOffset + i)
      else buffers.value.bytes i := by
  have sector := (roundUpto_valid valid).2
  have kept := @readRounds_beyond store media poolId key valueLen valid readExact i beyond
    (store.probes poolId key) buffers short
  rw [gotValue]
  by_cases shares : (storedHeader store media lba).valueOffset < store.sectorSize
  · rw [if_pos shares]
    by_cases stated : i < (storedHeader store media lba).valueLen
    · have behind : ¬(storedHeader store media lba).valueOffset + i < store.sectorSize := by omega
      rw [if_pos ⟨shares, stated⟩, Region.copy_inside _ _ ⟨Nat.zero_le i, by omega⟩, Nat.sub_zero,
        Region.drop, readRounds_buf nonempty found, if_neg behind]
    · rw [if_neg fun both => stated both.2, Region.copy_outside _ _ (.inr (by omega)), kept]
  · rw [if_neg shares, if_neg fun both => shares both.1, kept]

end Bytes

section Outcomes

variable {store : NvmKvStore} {thread : ι} {state : StoreState ι} {poolId : UInt32}
  {key : List UInt8} {address valueLen : Nat} {readExact : Bool}

/-- Where the first mapped window has one sector, an exact reading goes on with the header's
vector alone. Induction is on the addresses, of which those with a free window are passed
over. -/
theorem run_kvReadMediaProbes_single (positive : valueLen ≠ 0) {lbas : List Nat}
    (single : ¬FirstRunLong store state.media lbas) (buffers : ReadBuffers) :
    (kvReadMediaProbes store poolId key valueLen true lbas buffers).run (answer store thread)
        state =
      (kvReadMediaProbes store poolId key valueLen true lbas { buffers with numIovs := 1 }).run
        (answer store thread) state := by
  induction lbas with
  | nil => rfl
  | cons lba rest inductionHypothesis =>
    by_cases empty : (state.media.rangeExists ⟨lba, store.maxSearchRange⟩).length = 0
    · have free : windowFree store state.media lba = true := decide_eq_true empty
      have further : ¬FirstRunLong store state.media rest := by
        simpa [FirstRunLong, free] using single
      simp only [kvReadMediaProbes, positive, ne_eq, not_false_eq_true, and_self, if_true,
        Program.run_bind, run_kvRangeExists, Option.bind_some, empty,
        inductionHypothesis further]
    · have mapped : windowFree store state.media lba = false := decide_eq_false empty
      have one : ¬1 < (state.media.rangeExists ⟨lba, store.maxSearchRange⟩).length := by
        simpa [FirstRunLong, mapped] using single
      have zero : ((state.media.rangeExists ⟨lba, store.maxSearchRange⟩).length *
          store.sectorSize - store.sectorSize) % 2 ^ 32 = 0 := by
        rw [run_rest, Nat.sub_eq_zero_of_le (by omega), Nat.zero_mul]
      simp only [kvReadMediaProbes, positive, ne_eq, not_false_eq_true, and_self, if_true,
        Program.run_bind, run_kvRangeExists, Option.bind_some, empty, if_false, limitRead, zero,
        not_true_eq_false]

/-- A call whose vectors the device takes answers from the buffers of some reading of the
accepted length. -/
theorem run_kvGet_taken (accepted : keyAccepted state poolId key = true)
    (valid : kvValidateValue store true valueLen = true)
    (taken : ReadsTaken store state.media poolId key address readExact) (bytes buf : Region) :
    ∃ buffers : ReadBuffers, buffers.buf = buf ∧ buffers.value.bytes = bytes ∧
      buffers.valueIovLen ≤ valueLen ∧
      (kvGet store poolId key ⟨address, bytes⟩ valueLen readExact (some buf)).run
          (answer store thread) state =
        some (getAnswer store state poolId key valueLen readExact buffers,
          afterLookup store state poolId key) := by
  have whole := (roundUpto_valid valid).1
  rcases taken with ⟨vectors, aligned⟩ | ⟨rfl, single⟩
  · have readable : Readable store (getBuffers store ⟨address, bytes⟩ valueLen buf) :=
      ⟨vectors, fun _ => aligned⟩
    exact ⟨_, rfl, rfl, whole.le, run_kvGet store thread state accepted valid readable⟩
  · have positive : valueLen ≠ 0 := (of_decide_eq_true valid).1.ne'
    have alike := @run_kvReadMediaProbes_single ι store thread state poolId key valueLen positive
      (store.probes poolId key) single (getBuffers store ⟨address, bytes⟩ valueLen buf)
    exact ⟨{ getBuffers store ⟨address, bytes⟩ valueLen buf with numIovs := 1 }, rfl, rfl, whole.le,
      run_kvGet_like store thread state accepted valid (readable_sector store rfl) alike⟩

/-- A call whose vectors the device does not take fails. -/
theorem run_kvGet_untaken (accepted : keyAccepted state poolId key = true)
    (valid : kvValidateValue store true valueLen = true)
    (untaken : ¬ReadsTaken store state.media poolId key address readExact) (bytes buf : Region) :
    ∃ code after, (kvGet store poolId key ⟨address, bytes⟩ valueLen readExact (some buf)).run
      (answer store thread) state = some (.error code, after) := by
  rw [ReadsTaken, not_or] at untaken
  obtain ⟨misplaced, untaken⟩ := untaken
  have different : refusal store ≠ .objectNotFound := by
    unfold refusal
    split <;> decide
  have refused : ¬Readable store (getBuffers store ⟨address, bytes⟩ valueLen buf) :=
    fun readable => misplaced ⟨readable.fits, readable.aligned rfl⟩
  have read : (kvReadMediaProbes store poolId key valueLen readExact (store.probes poolId key)
      (getBuffers store ⟨address, bytes⟩ valueLen buf)).run (answer store thread) state =
        some (.error (refusal store), state) := by
    cases readExact with
    | false => exact run_kvReadMediaProbes_plain_refused refused
    | true =>
      have long : FirstRunLong store state.media (store.probes poolId key) := by
        by_contra single
        exact untaken ⟨rfl, single⟩
      obtain ⟨nonempty, short⟩ : 0 < key.length ∧ key.length ≤ nvmKvMaxKeySize := by
        simp only [keyAccepted, Bool.and_eq_true] at accepted
        exact of_decide_eq_true accepted.2
      obtain ⟨result, ran, ends, -⟩ := @run_kvReadMediaProbes_refused store _ thread state poolId
        key valueLen nonempty short (of_decide_eq_true valid).1.ne' _ refused
        (store.probes poolId key)
      rw [ran, ends.mpr long]
  obtain ⟨ended, after, ran, outcome⟩ := run_kvGet_refusal accepted valid read
  obtain ⟨returned, -⟩ := outcome _ different
  exact ⟨_, after, by rw [ran, returned.mpr rfl]⟩

/-- The pair that a lookup finds unexpired. -/
theorem exists_lookupLba {hdr : NvmKvHeader}
    (found : liveHeader store state poolId key = some hdr) :
    ∃ lba, lookupLba store state.media poolId key = some lba ∧
      storedHeader store state.media lba = hdr ∧ pairExpired store state.clock hdr = false := by
  unfold liveHeader at found
  cases search : lookupLba store state.media poolId key with
  | none =>
    rw [search] at found
    cases found
  | some lba =>
    rw [search] at found
    cases expired : pairExpired store state.clock (storedHeader store state.media lba) with
    | true =>
      simp only [expired, if_true] at found
      cases found
    | false =>
      simp only [expired, Bool.false_eq_true, if_false, Option.some.injEq] at found
      exact ⟨lba, rfl, found, found ▸ expired⟩

/-- A call that comes to a header succeeds, changes nothing of the store, and delivers no byte
behind the buffer but those that the header states. -/
theorem GetReaches.run {buf : Option Region} {hdr : NvmKvHeader}
    (reaches : GetReaches store state poolId key address valueLen readExact buf hdr)
    (bytes : Region) :
    ∃ readBuf got, buf = some readBuf ∧
      (kvGet store poolId key ⟨address, bytes⟩ valueLen readExact buf).run (answer store thread)
        state = some (.ok got, state) ∧
      ∀ i, valueLen ≤ i → got.value i =
        if hdr.valueOffset < store.sectorSize ∧ i < hdr.valueLen then readBuf (hdr.valueOffset + i)
        else bytes i := by
  obtain ⟨readBuf, allocated⟩ := Option.isSome_iff_exists.mp reaches.allocated
  obtain ⟨lba, found, header, unexpired⟩ := exists_lookupLba reaches.found
  obtain ⟨buffers, sameBuf, sameBytes, short, ran⟩ := @run_kvGet_taken ι store thread state poolId
    key address valueLen readExact reaches.accepted reaches.valid reaches.taken bytes readBuf
  obtain ⟨nonempty, -⟩ : 0 < key.length ∧ key.length ≤ nvmKvMaxKeySize := by
    have accepted := reaches.accepted
    simp only [keyAccepted, Bool.and_eq_true] at accepted
    exact of_decide_eq_true accepted.2
  have answered : getAnswer store state poolId key valueLen readExact buffers =
      .ok (getResult store state.media poolId key valueLen readExact buffers lba) := by
    simp only [getAnswer, found, header, unexpired, Bool.false_eq_true, if_false]
  have kept : afterLookup store state poolId key = state := by
    simp only [afterLookup, found, header, unexpired, Bool.false_eq_true, if_false]
  rw [answered, kept, ← allocated] at ran
  refine ⟨readBuf, _, allocated, ran, ?_⟩
  intro i beyond
  have delivered := @gotValue_beyond store state.media poolId key valueLen reaches.valid nonempty
    readExact lba found buffers short i beyond
  rw [header, sameBuf, sameBytes] at delivered
  exact delivered

/-- A call that succeeds came to a header. -/
theorem GetReaches.of_ok {buf : Option Region} {bytes : Region} {got : GetResult}
    {after : StoreState ι}
    (ran : (kvGet store poolId key ⟨address, bytes⟩ valueLen readExact buf).run
      (answer store thread) state = some (.ok got, after)) :
    ∃ hdr, GetReaches store state poolId key address valueLen readExact buf hdr := by
  cases validated : keyAccepted state poolId key && kvValidateValue store true valueLen with
  | false =>
    have refused : (!decide (poolStatus state.inUse state.deleted poolId = .poolInUse ∨
        poolId = 0xFFFFFFFF) || !kvValidateKey key || !kvValidateValue store true valueLen) =
        true := by
      rw [keyAccepted, Bool.and_assoc] at validated
      rw [Bool.or_assoc, ← Bool.not_and, ← Bool.not_and, validated, Bool.not_false]
    simp only [kvGet, Program.run_bind, run_kvValidatePoolId, Option.bind_some, refused, if_true,
      Program.run_pure, Option.some.injEq, Prod.mk.injEq, reduceCtorEq, false_and] at ran
  | true =>
    rw [Bool.and_eq_true] at validated
    obtain ⟨accepted, valid⟩ := validated
    cases buf with
    | none =>
      have passed := accepted
      simp only [keyAccepted, Bool.and_eq_true] at passed
      simp only [kvGet, Program.run_bind, run_kvValidatePoolId, Option.bind_some, passed.1,
        passed.2, valid, Bool.not_true, Bool.or_self, Bool.false_eq_true, if_false,
        Program.run_pure, Option.some.injEq, Prod.mk.injEq, reduceCtorEq, false_and] at ran
    | some readBuf =>
      by_cases taken : ReadsTaken store state.media poolId key address readExact
      · obtain ⟨buffers, _, _, _, answered⟩ := @run_kvGet_taken ι store thread state poolId key
          address valueLen readExact accepted valid taken bytes readBuf
        rw [answered, Option.some.injEq, Prod.mk.injEq] at ran
        obtain ⟨found, -⟩ := ran
        cases live : liveHeader store state poolId key with
        | some hdr => exact ⟨hdr, accepted, valid, rfl, taken, live⟩
        | none =>
          unfold liveHeader at live
          unfold getAnswer at found
          cases search : lookupLba store state.media poolId key with
          | none =>
            rw [search] at found
            cases found
          | some lba =>
            rw [search] at live found
            cases expired : pairExpired store state.clock (storedHeader store state.media lba) with
            | true =>
              simp only [expired, if_true, reduceCtorEq] at found
            | false =>
              simp only [expired, Bool.false_eq_true, if_false, reduceCtorEq] at live
      · obtain ⟨code, last, failed⟩ := @run_kvGet_untaken ι store thread state poolId key address
          valueLen readExact accepted valid taken bytes readBuf
        rw [failed] at ran
        cases ran

/-- A buffer that held something else. -/
theorem exists_other_byte (byte : UInt8) : ∃ other, byte ≠ other := by
  by_cases zero : byte = 0
  · exact ⟨1, by rw [zero]; decide⟩
  · exact ⟨0, zero⟩

/-- `kv_get` stays within the caller's buffer exactly when the header that it comes to does. -/
theorem getConfined_iff {buf : Option Region} :
    GetConfined store thread state poolId key address valueLen readExact buf ↔
      GetFits store state poolId key address valueLen readExact buf := by
  constructor
  · intro confined hdr reaches shares
    by_contra longer
    obtain ⟨readBuf, allocated⟩ := Option.isSome_iff_exists.mp reaches.allocated
    obtain ⟨other, different⟩ := exists_other_byte (readBuf (hdr.valueOffset + valueLen))
    obtain ⟨used, got, same, ran, beyond⟩ := @GetReaches.run ι store thread state poolId key
      address valueLen readExact buf hdr reaches fun _ => other
    rw [allocated, Option.some.injEq] at same
    have kept := confined.copied _ got state ran valueLen (Nat.le_refl _)
    rw [beyond valueLen (Nat.le_refl _), if_pos ⟨shares, Nat.lt_of_not_le longer⟩, ← same] at kept
    exact different kept
  · intro fits
    refine ⟨fun bytes op member => within_kvGet.of_asked member, ?_⟩
    intro bytes got after ran i outside
    obtain ⟨hdr, reaches⟩ := GetReaches.of_ok ran
    obtain ⟨readBuf, again, _, called, beyond⟩ := @GetReaches.run ι store thread state poolId key
      address valueLen readExact buf hdr reaches bytes
    rw [ran, Option.some.injEq, Prod.mk.injEq, Except.ok.injEq] at called
    obtain ⟨rfl, -⟩ := called
    rw [beyond i outside, if_neg]
    rintro ⟨shares, stated⟩
    have bounded := fits hdr reaches shares
    omega

end Outcomes

section Batches

/-- Get the pairs of a batch one after another, each with a buffer for its header, until one of
the calls fails. The values that were delivered before are delivered. -/
def kvBatchGetLoop (store : NvmKvStore) (poolId : UInt32) :
    List (NvmKvIovec × Option Region) → StoreM (List GetResult × Except NvmErrorCode Unit)
  | [] => pure ([], .ok ())
  | (pair, buf) :: rest => do
      match ← kvGet store poolId pair.key pair.value pair.valueLen true buf with
      | .error code => pure ([], .error code)
      | .ok got =>
          let (others, ended) ← kvBatchGetLoop store poolId rest
          pure (got :: others, ended)

/-- Get a batch of values (`kv_batch_get`). -/
def kvBatchGet (store : NvmKvStore) (poolId : UInt32)
    (kvIov : List (NvmKvIovec × Option Region)) :
    StoreM (List GetResult × Except NvmErrorCode Unit) := do
  if !(← kvValidatePoolId poolId) || kvIov.isEmpty then
    pure ([], .error .invalidInput)
  else
    kvBatchGetLoop store poolId kvIov

/-- The calls of `kv_get` that a batch makes: the one for a pair is made when those for the
pairs before it have succeeded. -/
def BatchMakes (store : NvmKvStore) (thread : ι) (state : StoreState ι) (poolId : UInt32)
    (kvIov : List (NvmKvIovec × Option Region)) (pair : NvmKvIovec) (buf : Option Region)
    (reached : StoreState ι) : Prop :=
  ∃ made rest got, kvIov = made ++ (pair, buf) :: rest ∧
    (kvBatchGetLoop store poolId made).run (answer store thread) state =
      some ((got, .ok ()), reached)

/-- What `kv_batch_get` delivers lies in the first bytes of the buffer of each pair. -/
def BatchGetConfined (store : NvmKvStore) (thread : ι) (state : StoreState ι) (poolId : UInt32)
    (kvIov : List (NvmKvIovec × Option Region)) : Prop :=
  ∀ pair buf reached, BatchMakes store thread state poolId kvIov pair buf reached →
    GetConfined store thread reached poolId pair.key pair.value.address pair.valueLen true buf

/-- Every pair of a batch fits that comes behind pairs that are found. -/
def BatchGetFits (store : NvmKvStore) (state : StoreState ι) (poolId : UInt32)
    (kvIov : List (NvmKvIovec × Option Region)) : Prop :=
  ∀ made pair buf rest, kvIov = made ++ (pair, buf) :: rest →
    (∀ other ∈ made, ∃ hdr, GetReaches store state poolId other.1.key other.1.value.address
      other.1.valueLen true other.2 hdr) →
    GetFits store state poolId pair.key pair.value.address pair.valueLen true buf

variable {store : NvmKvStore} {thread : ι} {state : StoreState ι} {poolId : UInt32}
  {kvIov : List (NvmKvIovec × Option Region)}

/-- The calls that a batch makes on the store are those of its calls of `kv_get`. Induction is
on the pairs. -/
theorem mem_asked_kvBatchGetLoop {op : StoreOp} :
    op ∈ (kvBatchGetLoop store poolId kvIov).asked (answer store thread) state ↔
      ∃ pair buf reached, BatchMakes store thread state poolId kvIov pair buf reached ∧
        op ∈ (kvGet store poolId pair.key pair.value pair.valueLen true buf).asked
          (answer store thread) reached := by
  induction kvIov generalizing state with
  | nil =>
    refine iff_of_false List.not_mem_nil ?_
    rintro ⟨_, _, _, ⟨made, rest, _, split, _⟩, _⟩
    exact List.append_ne_nil_of_right_ne_nil _ (List.cons_ne_nil _ _) split.symm
  | cons first kvIov inductionHypothesis =>
    obtain ⟨pair, buf⟩ := first
    rw [kvBatchGetLoop, Program.mem_asked_bind]
    constructor
    · rintro (here | ⟨result, reached, ran, later⟩)
      · exact ⟨pair, buf, state, ⟨[], kvIov, [], rfl, rfl⟩, here⟩
      · cases result with
        | error code => exact absurd later List.not_mem_nil
        | ok got =>
          rw [Program.mem_asked_bind, inductionHypothesis] at later
          rcases later with ⟨other, otherBuf, after, ⟨made, rest, found, split, called⟩, asked⟩ |
            ⟨_, _, _, none⟩
          · refine ⟨other, otherBuf, after, ⟨(pair, buf) :: made, rest, got :: found, ?_, ?_⟩,
              asked⟩
            · rw [split, List.cons_append]
            · simp only [kvBatchGetLoop, Program.run_bind, ran, Option.bind_some, called,
                Program.run_pure]
          · exact absurd none List.not_mem_nil
    · rintro ⟨other, otherBuf, after, ⟨made, rest, found, split, called⟩, asked⟩
      cases made with
      | nil =>
        rw [List.nil_append, List.cons.injEq, Prod.mk.injEq] at split
        obtain ⟨⟨rfl, rfl⟩, -⟩ := split
        cases called
        exact Or.inl asked
      | cons early made =>
        rw [List.cons_append, List.cons.injEq] at split
        obtain ⟨rfl, split⟩ := split
        rw [kvBatchGetLoop, Program.run_bind, Option.bind_eq_some_iff] at called
        obtain ⟨⟨result, reached⟩, ran, called⟩ := called
        cases result with
        | error code => cases called
        | ok got =>
          refine Or.inr ⟨.ok got, reached, ran, Program.mem_asked_bind.mpr (Or.inl ?_)⟩
          rw [Program.run_bind, Option.bind_eq_some_iff] at called
          obtain ⟨⟨⟨others, ended⟩, last⟩, further, called⟩ := called
          simp only [Program.run_pure, Option.some.injEq, Prod.mk.injEq] at called
          obtain ⟨⟨_, rfl⟩, rfl⟩ := called
          exact inductionHypothesis.mpr
            ⟨other, otherBuf, last, ⟨made, rest, others, split, further⟩, asked⟩

/-- So also those of the whole call, but for the one that validates the pool. -/
theorem asked_kvBatchGet {op : StoreOp}
    (member : op ∈ (kvBatchGet store poolId kvIov).asked (answer store thread) state) :
    op = .checkPoolStatus poolId ∨
      ∃ pair buf reached, BatchMakes store thread state poolId kvIov pair buf reached ∧
        op ∈ (kvGet store poolId pair.key pair.value pair.valueLen true buf).asked
          (answer store thread) reached := by
  rw [kvBatchGet, Program.mem_asked_bind] at member
  rcases member with validates | ⟨accepted, reached, ran, later⟩
  · exact Or.inl (List.mem_singleton.mp validates)
  · rw [run_kvValidatePoolId, Option.some.injEq, Prod.mk.injEq] at ran
    obtain ⟨-, rfl⟩ := ran
    split at later
    · exact absurd later List.not_mem_nil
    · exact Or.inr (mem_asked_kvBatchGetLoop.mp later)

/-- Whether or not the pairs fit, `kv_batch_get` gives the device no vector that is longer than
the buffer of the pair that it is read for. -/
theorem within_kvBatchGet {op : StoreOp}
    (member : op ∈ (kvBatchGet store poolId kvIov).asked (answer store thread) state) :
    op = .checkPoolStatus poolId ∨ ∃ entry ∈ kvIov, op.Within entry.1.valueLen := by
  rcases asked_kvBatchGet member with validates | ⟨pair, buf, reached, ⟨made, rest, _, split, _⟩,
    asked⟩
  · exact Or.inl validates
  · have listed : (pair, buf) ∈ kvIov := by
      rw [split]
      exact List.mem_append_right _ List.mem_cons_self
    exact Or.inr ⟨(pair, buf), listed, within_kvGet.of_asked asked⟩

/-- A batch succeeds when every pair is found, and changes nothing then. Induction is on the
pairs. -/
theorem run_kvBatchGetLoop_ok {got : List GetResult} {reached : StoreState ι}
    (ran : (kvBatchGetLoop store poolId kvIov).run (answer store thread) state =
      some ((got, .ok ()), reached)) :
    reached = state ∧ ∀ other ∈ kvIov, ∃ hdr, GetReaches store state poolId other.1.key
      other.1.value.address other.1.valueLen true other.2 hdr := by
  induction kvIov generalizing got with
  | nil =>
    cases ran
    exact ⟨rfl, fun _ absent => absurd absent List.not_mem_nil⟩
  | cons first rest inductionHypothesis =>
    obtain ⟨pair, buf⟩ := first
    rw [kvBatchGetLoop, Program.run_bind, Option.bind_eq_some_iff] at ran
    obtain ⟨⟨result, after⟩, called, ran⟩ := ran
    cases result with
    | error code => cases ran
    | ok here =>
      obtain ⟨hdr, reaches⟩ := GetReaches.of_ok called
      obtain ⟨_, _, _, again, _⟩ := @GetReaches.run ι store thread state poolId pair.key
        pair.value.address pair.valueLen true buf hdr reaches pair.value.bytes
      rw [called, Option.some.injEq, Prod.mk.injEq] at again
      obtain ⟨-, rfl⟩ := again
      rw [Program.run_bind, Option.bind_eq_some_iff] at ran
      obtain ⟨⟨⟨others, ended⟩, last⟩, further, ran⟩ := ran
      simp only [Program.run_pure, Option.some.injEq, Prod.mk.injEq] at ran
      obtain ⟨⟨_, rfl⟩, rfl⟩ := ran
      obtain ⟨kept, found⟩ := inductionHypothesis further
      refine ⟨kept, ?_⟩
      intro other listed
      rcases List.mem_cons.mp listed with rfl | later
      · exact ⟨hdr, reaches⟩
      · exact found other later

/-- A batch whose pairs are all found succeeds and changes nothing. Induction is on the pairs. -/
theorem exists_run_kvBatchGetLoop
    (found : ∀ other ∈ kvIov, ∃ hdr, GetReaches store state poolId other.1.key
      other.1.value.address other.1.valueLen true other.2 hdr) :
    ∃ got, (kvBatchGetLoop store poolId kvIov).run (answer store thread) state =
      some ((got, .ok ()), state) := by
  induction kvIov with
  | nil => exact ⟨[], rfl⟩
  | cons first rest inductionHypothesis =>
    obtain ⟨pair, buf⟩ := first
    obtain ⟨hdr, reaches⟩ := found _ List.mem_cons_self
    obtain ⟨_, here, _, called, _⟩ := @GetReaches.run ι store thread state poolId pair.key
      pair.value.address pair.valueLen true buf hdr reaches pair.value.bytes
    obtain ⟨others, further⟩ := inductionHypothesis fun other later =>
      found other (List.mem_cons_of_mem _ later)
    refine ⟨here :: others, ?_⟩
    have ran : (kvGet store poolId pair.key pair.value pair.valueLen true buf).run
        (answer store thread) state = some (.ok here, state) := called
    simp only [kvBatchGetLoop, Program.run_bind, ran, Option.bind_some, further,
      Program.run_pure]

/-- `kv_batch_get` stays within the buffers exactly when each pair that it comes to fits. -/
theorem batchGetConfined_iff :
    BatchGetConfined store thread state poolId kvIov ↔ BatchGetFits store state poolId kvIov := by
  constructor
  · intro confined made pair buf rest split found
    obtain ⟨got, ran⟩ := @exists_run_kvBatchGetLoop ι store thread state poolId made found
    exact getConfined_iff.mp (confined pair buf state ⟨made, rest, got, split, ran⟩)
  · rintro fits pair buf reached ⟨made, rest, got, split, ran⟩
    obtain ⟨kept, found⟩ := run_kvBatchGetLoop_ok ran
    rw [kept]
    exact getConfined_iff.mpr (fits made pair buf rest split found)

end Batches

end Nvmkv
