import Nvmkv.Header
import Nvmkv.ProbeAddresses
import Nvmkv.Programs

/-!
# Expiry passes

`start_expiry` of the expiry manager with the iterator and the scanner below it.
A pass asks the iterator for one range after the other until it says that there
are no more, and trims the ranges in batches. In the mode of one expiry for all
pairs the device has filtered the ranges already and no header is read again.

The iterator fetches ranges from the device in portions into a buffer and keeps
its position there. Resetting it at the end of a pass sets the device back to the
front but leaves position and portion size, so what the next pass reads first
depends on where the last one stopped.

The device and everything else that happens meanwhile are an arbitrary machine
here. What a pass got from the device and what it trimmed are recorded next to
the machine's state.
-/

namespace Nvmkv

/-- The filters of the device's iterator. -/
structure NvmIterFilters where
  filterMask : Nat
  filterPattern : Nat
  filterExpiry : Nat

/-- An iterator (`kv_batch_iterator_t`) with the buffer of its ranges. -/
structure KvBatchIterator where
  poolHash : Nat
  numRangesFound : Nat
  pos : Nat
  rangeToIterate : NvmBlockRange
  maxRanges : Nat
  filters : NvmIterFilters
  ranges : Nat → NvmBlockRange

/-- The kinds of expiry scanners. -/
inductive ExpiryIter where
  | arbExpIter
  | glbExpIter
  deriving DecidableEq

/-- What a pass calls. -/
inductive ExpiryOp where
  | checkPoolDelStatus
  | time
  | logicalRangeIterator (range : NvmBlockRange) (maxRanges : Nat) (filters : NvmIterFilters)
  | readv (lba : Nat)
  | batchDeleteSync (iovec : List NvmIovec)

/-- The answers: a range iterator fails, or returns ranges and what is left to
iterate over; a sector is read or the read fails; a batch is deleted or not. -/
abbrev ExpiryRes : ExpiryOp → Type
  | .checkPoolDelStatus => Bool
  | .time => Nat
  | .logicalRangeIterator _ _ _ => Option (List NvmBlockRange × NvmBlockRange)
  | .readv _ => Option Region
  | .batchDeleteSync _ => Bool

/-- The programs of the scanner. -/
abbrev ExpiryM (α : Type) := Program ExpiryOp ExpiryRes α

/-- One call with its answer. -/
def askExpiry (op : ExpiryOp) : ExpiryM (ExpiryRes op) := Program.perform op

/-- Whether a deletion of pools is going on. -/
def checkPoolDelStatus : ExpiryM Bool := askExpiry .checkPoolDelStatus

/-- The time that the scanner goes by. -/
def scannerTime : ExpiryM Nat := askExpiry .time

/-- The next ranges that the device has in a range, at most as many as asked for, and what remains
of it. -/
def nvmLogicalRangeIterator (range : NvmBlockRange) (maxRanges : Nat) (filters : NvmIterFilters) :
    ExpiryM (Option (List NvmBlockRange × NvmBlockRange)) :=
  askExpiry (.logicalRangeIterator range maxRanges filters)

/-- The sector at an address, or a failure of the device. -/
def readKeySector (lba : Nat) : ExpiryM (Option Region) := askExpiry (.readv lba)

/-- Hand trim vectors over, and whether the device took them. -/
def batchDeleteSync (iovec : List NvmIovec) : ExpiryM Bool :=
  askExpiry (.batchDeleteSync iovec)

namespace KvBatchIterator

/-- A new iterator over all pools (`alloc_iter`). Memory is not initialised. -/
def allocIter (memory : KvBatchIterator) : KvBatchIterator :=
  { memory with poolHash := 0, pos := 0, numRangesFound := 0 }

/-- Set the range to iterate over and the filters (`init_iter`). -/
def initIter (it : KvBatchIterator) (searchBase searchLength maxRanges poolMask : Nat) :
    KvBatchIterator :=
  { it with
    rangeToIterate := ⟨searchBase, searchLength⟩
    maxRanges := maxRanges
    filters :=
      { it.filters with
        filterPattern := it.poolHash
        filterMask := if it.poolHash = 0 then 0 else poolMask } }

/-- Set the iterator to the front of the data (`reset_iterator`). -/
def resetIterator (store : NvmKvStore) (maxRanges : Nat) (it : KvBatchIterator) :
    KvBatchIterator :=
  it.initIter store.dataStartLba (store.kvLen - store.dataStartLba) maxRanges
    (2 ^ store.poolBits - 1)

/-- The buffer after the device has put ranges at its front. -/
def fetched (it : KvBatchIterator) (found : List NvmBlockRange) : Nat → NvmBlockRange :=
  fun i => (found[i]?).getD (it.ranges i)

/-- The device filters by expiry only where there is one expiry for all pairs. -/
def filterExpiry (store : NvmKvStore) (iterType : ExpiryIter) : ExpiryM Nat :=
  if iterType = .glbExpIter then do
    let time ← scannerTime
    pure ((time + 2 ^ 64 - store.globalExpiry) % 2 ^ 64)
  else pure 0

/-- Move on by one range, or fetch the next ranges (`iterate`). -/
def iterate (store : NvmKvStore) (iterType : ExpiryIter) (it : KvBatchIterator) :
    ExpiryM (Except NvmErrorCode Unit × KvBatchIterator) := do
  if it.pos + 1 < it.numRangesFound then
    pure (.ok (), { it with pos := it.pos + 1 })
  else if iterType = .glbExpIter ∧ store.globalExpiry = 0 then
    pure (.error .internalFailure, it)
  else
    let filterExpiry ← filterExpiry store iterType
    let it := { it with filters := { it.filters with filterExpiry := filterExpiry }, pos := 0 }
    match ← nvmLogicalRangeIterator it.rangeToIterate it.maxRanges it.filters with
    | none => pure (.error .internalFailure, it)
    | some (found, left) =>
        let it := { it with rangeToIterate := left, ranges := it.fetched found }
        if found.length = 0 then
          pure (.error .objectNotFound, it)
        else
          pure (.ok (), { it with numRangesFound := found.length })

/-- The range at the position (`get_iter_loc`). -/
def getIterLoc (it : KvBatchIterator) : NvmBlockRange := it.ranges it.pos

end KvBatchIterator

/-- Whether the header of a range says that its pair has expired
(`is_valid_for_del`). A sector that does not start with a header is not to be
deleted. -/
def isValidForDel (keyLoc : Nat) : ExpiryM (Except NvmErrorCode Bool) := do
  match ← readKeySector keyLoc with
  | none => pure (.error .io)
  | some buf =>
      let hdr := readHeader buf
      if hdr.keyLen = 0 ∨ nvmKvMaxKeySize < hdr.keyLen then
        pure (.ok false)
      else
        let curtime ← scannerTime
        pure (.ok (hdr.expiry ≠ 0 ∧ hdr.expiry < curtime % 2 ^ 32))

/-- The vector that trims a range. -/
def rangeIovec (store : NvmKvStore) (range : NvmBlockRange) : NvmIovec where
  iovBase := poolBuffer fun _ => 0
  iovLen := range.length * store.sectorSize
  iovLba := range.startLba
  iovOpcode := .trim

/-- How the loop of a pass goes on with a range: it stops with an error, leaves
the range, or trims it. A range is trimmed with the return code at hand, which is
one when a header was read. -/
inductive RangeVerdict where
  | stops (code : NvmErrorCode)
  | leaves
  | trims (retCode : Nat)

/-- Whether a range is to be deleted, and the return code that says so. -/
def checkRange (iterType : ExpiryIter) (range : NvmBlockRange) :
    ExpiryM (Except NvmErrorCode (Option Nat)) :=
  if iterType = .glbExpIter then
    pure (.ok (some 0))
  else do
    match ← isValidForDel range.startLba with
    | .error code => pure (.error code)
    | .ok expired => pure (.ok (if expired then some 1 else none))

/-- What becomes of a range. A range longer than one trim vector is an error. -/
def rangeVerdict (store : NvmKvStore) (iterType : ExpiryIter) (range : NvmBlockRange) :
    ExpiryM RangeVerdict := do
  match ← checkRange iterType range with
  | .error code => pure (.stops code)
  | .ok none => pure .leaves
  | .ok (some retCode) =>
      if store.capabilities.maxTrimSize < range.length * store.sectorSize then
        pure (.stops .internalFailure)
      else pure (.trims retCode)

/-- The loop of `start_expiry` with the return code and the vectors so far. The
result is nothing when the rounds are used up. -/
def expiryLoop (store : NvmKvStore) (iterType : ExpiryIter) :
    (rounds retCode : Nat) → KvBatchIterator → List NvmIovec →
      ExpiryM (Option (Except NvmErrorCode Nat × List NvmIovec) × KvBatchIterator)
  | 0, _, it, _ => pure (none, it)
  | rounds + 1, retCode, it, iovec => do
      if ← checkPoolDelStatus then
        pure (some (.ok retCode, iovec), it)
      else
        let (scanned, it) ← it.iterate store iterType
        match scanned with
        | .error code => pure (some (.error code, iovec), it)
        | .ok () =>
            let range := it.getIterLoc
            match ← rangeVerdict store iterType range with
            | .stops code => pure (some (.error code, iovec), it)
            | .leaves => expiryLoop store iterType rounds 0 it iovec
            | .trims retCode =>
                let iovec := iovec ++ [rangeIovec store range]
                if iovec.length = store.capabilities.nvmMaxNumIovs then
                  if ← batchDeleteSync iovec then
                    expiryLoop store iterType rounds 0 it []
                  else
                    pure (some (.error .io, iovec), it)
                else
                  expiryLoop store iterType rounds retCode it iovec

/-- The end of the data is the success of a pass. -/
def passCode : Except NvmErrorCode Nat → Except NvmErrorCode Nat
  | .error .objectNotFound => .ok 0
  | retCode => retCode

/-- One pass (`start_expiry`). What was collected last is trimmed when the pass
has come to the end. -/
def startExpiry (store : NvmKvStore) (iterType : ExpiryIter) (maxRanges rounds : Nat)
    (it : KvBatchIterator) : ExpiryM (Option (Except NvmErrorCode Nat) × KvBatchIterator) := do
  let (ended, it) ← expiryLoop store iterType rounds 0 it []
  match ended with
  | none => pure (none, it)
  | some (retCode, iovec) =>
      match iovec, passCode retCode with
      | _ :: _, .ok 0 =>
          let deleted ← batchDeleteSync iovec
          pure (some (if deleted then .ok 0 else .error .io), it.resetIterator store maxRanges)
      | _, retCode => pure (some retCode, it.resetIterator store maxRanges)

/-- The machine around a pass with the record of the pass: the ranges that the
device returned and the vectors handed over to be deleted. -/
structure PassLog (σ : Type) where
  world : σ
  returned : List NvmBlockRange
  trimmed : List NvmIovec

variable {σ : Type}

/-- Record a call and its answer. -/
def PassLog.record (log : PassLog σ) : (op : ExpiryOp) → ExpiryRes op → PassLog σ
  | .logicalRangeIterator _ _ _, some (found, _) =>
      { log with returned := log.returned ++ found }
  | .batchDeleteSync iovec, _ => { log with trimmed := log.trimmed ++ iovec }
  | _, _ => log

/-- The machine, recorded. -/
def logged (handle : Program.Handler ExpiryOp ExpiryRes σ) :
    Program.Handler ExpiryOp ExpiryRes (PassLog σ) := fun op log =>
  (handle op log.world).map fun answered =>
    (answered.1, { log with world := answered.2 }.record op answered.1)

/-- The vectors trim ranges that the device has returned. -/
def Trims (store : NvmKvStore) (returned : List NvmBlockRange) (iovec : List NvmIovec) : Prop :=
  ∀ vector ∈ iovec, ∃ range ∈ returned, vector = rangeIovec store range

/-- What was collected and trimmed so far was returned during the pass. -/
structure PassTrims (store : NvmKvStore) (iovec : List NvmIovec) (log : PassLog σ) : Prop where
  collected : Trims store log.returned iovec
  trimmed : Trims store log.returned log.trimmed

/-- So was what is left to read in the buffer. -/
structure PassFresh (store : NvmKvStore) (it : KvBatchIterator) (iovec : List NvmIovec)
    (log : PassLog σ) : Prop extends PassTrims store iovec log where
  buffered : ∀ i, it.pos < i → i < it.numRangesFound → it.ranges i ∈ log.returned

/-- No vector trims nothing. -/
theorem Trims.nil {store : NvmKvStore} {returned : List NvmBlockRange} :
    Trims store returned [] := fun _ absent => nomatch absent

/-- What trims among some ranges trims among more of them. -/
theorem Trims.mono {store : NvmKvStore} {returned more : List NvmBlockRange}
    {iovec : List NvmIovec} (trims : Trims store returned iovec)
    (among : ∀ range ∈ returned, range ∈ more) : Trims store more iovec := by
  intro vector member
  obtain ⟨range, returned, same⟩ := trims vector member
  exact ⟨range, among range returned, same⟩

/-- Vectors that trim such ranges may be joined. -/
theorem Trims.append {store : NvmKvStore} {returned : List NvmBlockRange}
    {first rest : List NvmIovec} (trims : Trims store returned first)
    (further : Trims store returned rest) : Trims store returned (first ++ rest) := by
  intro vector member
  rcases List.mem_append.mp member with member | member
  · exact trims vector member
  · exact further vector member

/-- The record does not depend on the machine's state. -/
theorem PassFresh.world {store : NvmKvStore} {it : KvBatchIterator} {iovec : List NvmIovec}
    {log : PassLog σ} (fresh : PassFresh store it iovec log) (world : σ) :
    PassFresh store it iovec { log with world := world } :=
  ⟨⟨fresh.collected, fresh.trimmed⟩, fresh.buffered⟩

/-- With nothing left to read in the buffer. -/
theorem PassTrims.drained {store : NvmKvStore} {iovec : List NvmIovec} {log : PassLog σ}
    (held : PassTrims store iovec log) (it : KvBatchIterator) :
    PassFresh store { it with numRangesFound := 0 } iovec log :=
  ⟨held, fun _ _ below => absurd below (Nat.not_lt_zero _)⟩

section PassSteps

variable {store : NvmKvStore} {handle : Program.Handler ExpiryOp ExpiryRes σ}
  {it : KvBatchIterator} {iovec : List NvmIovec} {iterType : ExpiryIter}

/-- Calls that neither iterate nor delete leave the record alone, and assertions
here are about the record. -/
theorem triple_quiet {op : ExpiryOp}
    (silent : ∀ (log : PassLog σ) answer, log.record op answer = log) {holds : PassLog σ → Prop}
    (recorded : ∀ log world, holds log → holds { log with world := world }) :
    Program.Triple (logged handle) holds (askExpiry op) fun _ => holds := by
  refine Program.Triple.perform ?_
  intro log held answer reached replied
  rw [logged, Option.map_eq_some_iff] at replied
  obtain ⟨answered, _, same⟩ := replied
  obtain ⟨rfl, rfl⟩ := Prod.mk.inj same
  rw [silent]
  exact recorded log answered.2 held

/-- Asking for the time trims nothing. -/
theorem triple_scannerTime :
    Program.Triple (logged handle) (PassTrims store iovec) scannerTime
      fun _ => PassTrims store iovec :=
  triple_quiet (fun _ _ => rfl) fun _ _ held => ⟨held.collected, held.trimmed⟩

/-- What the device returns is recorded. -/
theorem triple_nvmLogicalRangeIterator (range : NvmBlockRange) (maxRanges : Nat)
    (filters : NvmIterFilters) :
    Program.Triple (logged handle) (PassTrims store iovec)
      (nvmLogicalRangeIterator range maxRanges filters) fun answer log =>
        PassTrims store iovec log ∧
          ∀ found left, answer = some (found, left) → ∀ range ∈ found, range ∈ log.returned := by
  refine Program.Triple.perform ?_
  intro log held answer reached replied
  rw [logged, Option.map_eq_some_iff] at replied
  obtain ⟨answered, _, same⟩ := replied
  obtain ⟨rfl, rfl⟩ := Prod.mk.inj same
  cases answer : answered.1 with
  | none => exact ⟨⟨held.collected, held.trimmed⟩, fun found left impossible => nomatch impossible⟩
  | some result =>
      obtain ⟨found, left⟩ := result
      have among : ∀ range ∈ log.returned, range ∈ log.returned ++ found :=
        fun range member => List.mem_append_left _ member
      refine ⟨⟨held.collected.mono among, held.trimmed.mono among⟩, ?_⟩
      intro other rest same range member
      cases same
      exact List.mem_append_right _ member

/-- What is handed over was collected. -/
theorem triple_batchDeleteSync :
    Program.Triple (logged handle) (PassFresh store it iovec) (batchDeleteSync iovec)
      fun _ => PassFresh store it iovec := by
  refine Program.Triple.perform ?_
  intro log held answer reached replied
  rw [logged, Option.map_eq_some_iff] at replied
  obtain ⟨answered, _, same⟩ := replied
  obtain ⟨rfl, rfl⟩ := Prod.mk.inj same
  exact ⟨⟨held.collected, held.trimmed.append held.collected⟩, held.buffered⟩

/-- The iterator moves on inside what was returned, or fetches what the device
returns now. After an error the pass does not read the buffer again. -/
theorem triple_iterate :
    Program.Triple (logged handle) (PassFresh store it iovec) (it.iterate store iterType)
      fun answer log => PassTrims store iovec log ∧ (answer.1 = .ok () →
        PassFresh store answer.2 iovec log ∧ answer.2.getIterLoc ∈ log.returned) := by
  rw [KvBatchIterator.iterate]
  by_cases inside : it.pos + 1 < it.numRangesFound
  · rw [if_pos inside]
    refine Program.Triple.done fun log fresh => ⟨fresh.toPassTrims, fun _ => ⟨?_, ?_⟩⟩
    · exact ⟨fresh.toPassTrims, fun i above => fresh.buffered i (Nat.lt_of_succ_lt above)⟩
    · exact fresh.buffered (it.pos + 1) (Nat.lt_succ_self _) inside
  · rw [if_neg inside]
    by_cases unset : iterType = .glbExpIter ∧ store.globalExpiry = 0
    · rw [if_pos unset]
      exact Program.Triple.done fun log fresh =>
        ⟨fresh.toPassTrims, fun impossible => nomatch impossible⟩
    · rw [if_neg unset]
      have expiry : Program.Triple (logged handle) (PassFresh store it iovec)
          (KvBatchIterator.filterExpiry store iterType) fun _ => PassTrims store iovec := by
        rw [KvBatchIterator.filterExpiry]
        split_ifs
        · refine Program.Triple.strengthen (Program.Triple.bind triple_scannerTime ?_)
            fun _ fresh => fresh.toPassTrims
          exact fun _ => Program.Triple.done fun _ held => held
        · exact Program.Triple.done fun _ fresh => fresh.toPassTrims
      refine Program.Triple.bind expiry fun filterExpiry => ?_
      refine Program.Triple.bind (triple_nvmLogicalRangeIterator _ _ _) fun answer => ?_
      cases answer with
      | none =>
        exact Program.Triple.done fun _ held => ⟨held.1, fun impossible => nomatch impossible⟩
      | some result =>
          obtain ⟨found, left⟩ := result
          by_cases none : found.length = 0
          · simp only [none, if_true]
            exact Program.Triple.done fun _ held => ⟨held.1, fun impossible => nomatch impossible⟩
          · simp only [if_neg none]
            refine Program.Triple.done fun log held => ⟨held.1, fun _ => ?_⟩
            have returned : ∀ i, i < found.length → it.fetched found i ∈ log.returned := by
              intro i bounded
              rw [KvBatchIterator.fetched, List.getElem?_eq_getElem bounded]
              exact held.2 found left rfl _ (List.getElem_mem bounded)
            exact ⟨⟨held.1, fun i _ bounded => returned i bounded⟩,
              returned 0 (Nat.pos_of_ne_zero none)⟩

/-- Reading a header leaves the record alone. -/
theorem triple_rangeVerdict {holds : PassLog σ → Prop}
    (recorded : ∀ (log : PassLog σ) (world : σ), holds log → holds { log with world := world })
    (range : NvmBlockRange) :
    Program.Triple (logged handle) holds (rangeVerdict store iterType range) fun _ => holds := by
  have validated : Program.Triple (logged handle) holds (isValidForDel range.startLba)
      fun _ => holds := by
    refine Program.Triple.bind (triple_quiet (fun _ _ => rfl) recorded) fun sector => ?_
    cases sector with
    | none => exact Program.Triple.done fun _ held => held
    | some buf =>
        dsimp only
        split_ifs
        · exact Program.Triple.done fun _ held => held
        · exact Program.Triple.bind (triple_quiet (fun _ _ => rfl) recorded) fun _ =>
            Program.Triple.done fun _ held => held
  have checked : Program.Triple (logged handle) holds (checkRange iterType range)
      fun _ => holds := by
    rw [checkRange]
    split_ifs
    · exact Program.Triple.done fun _ held => held
    · refine Program.Triple.bind validated fun valid => ?_
      cases valid <;> exact Program.Triple.done fun _ held => held
  refine Program.Triple.bind checked fun verdict => ?_
  rcases verdict with code | _ | retCode
  · exact Program.Triple.done fun _ held => held
  · exact Program.Triple.done fun _ held => held
  · dsimp only
    split_ifs <;> exact Program.Triple.done fun _ held => held

/-- How the loop of a pass leaves the record. -/
def LoopEnded (store : NvmKvStore)
    (ended : Option (Except NvmErrorCode Nat × List NvmIovec) × KvBatchIterator)
    (log : PassLog σ) : Prop :=
  Trims store log.returned log.trimmed ∧
    ∀ code left, ended.1 = some (code, left) → PassTrims store left log

/-- A loop that ends here has trimmed what its vectors say. -/
theorem triple_ends (code : Except NvmErrorCode Nat) (it : KvBatchIterator)
    (iovec : List NvmIovec) :
    Program.Triple (logged handle) (PassTrims store iovec) (pure (some (code, iovec), it))
      (LoopEnded store) := by
  refine Program.Triple.done fun log held => ⟨held.trimmed, ?_⟩
  rintro _ _ same
  cases same
  exact held

/-- The loop of a pass, by induction on its rounds. Where the loop goes on, the range of its
position joins the vectors. -/
theorem triple_expiryLoop (rounds : Nat) :
    ∀ (retCode : Nat) (it : KvBatchIterator) (iovec : List NvmIovec),
      Program.Triple (logged handle) (PassFresh store it iovec)
        (expiryLoop store iterType rounds retCode it iovec) (LoopEnded store) := by
  induction rounds with
  | zero =>
      intro retCode it iovec
      exact Program.Triple.done fun _ fresh =>
        ⟨fresh.trimmed, fun _ _ impossible => nomatch impossible⟩
  | succ rounds inductionHypothesis =>
      intro retCode it iovec
      have running : Program.Triple (logged handle) (PassFresh store it iovec)
          checkPoolDelStatus fun _ => PassFresh store it iovec :=
        triple_quiet (fun _ _ => rfl) fun _ world fresh => fresh.world world
      refine Program.Triple.bind running fun deleting => ?_
      cases deleting with
      | true => exact (triple_ends _ it iovec).strengthen fun _ fresh => fresh.toPassTrims
      | false =>
          refine Program.Triple.bind triple_iterate fun scanned => ?_
          obtain ⟨scanned, it⟩ := scanned
          cases scanned with
          | error code => exact (triple_ends _ it iovec).strengthen fun _ held => held.1
          | ok _ =>
              have judged : Program.Triple (logged handle)
                  (fun log => PassFresh store it iovec log ∧ it.getIterLoc ∈ log.returned)
                  (rangeVerdict store iterType it.getIterLoc) fun _ log =>
                    PassFresh store it iovec log ∧ it.getIterLoc ∈ log.returned :=
                triple_rangeVerdict (fun _ world held => ⟨held.1.world world, held.2⟩) _
              refine Program.Triple.bind
                (judged.strengthen fun _ held => held.2 rfl) fun verdict => ?_
              cases verdict with
              | stops code =>
                  exact (triple_ends _ it iovec).strengthen fun _ held => held.1.toPassTrims
              | leaves =>
                  exact (inductionHypothesis 0 it iovec).strengthen fun _ held => held.1
              | trims retCode =>
                  have joined : ∀ log : PassLog σ, PassFresh store it iovec log ∧
                      it.getIterLoc ∈ log.returned →
                      PassFresh store it (iovec ++ [rangeIovec store it.getIterLoc]) log := by
                    rintro log ⟨fresh, member⟩
                    refine ⟨⟨fresh.collected.append ?_, fresh.trimmed⟩, fresh.buffered⟩
                    intro vector only
                    exact ⟨_, member, List.mem_singleton.mp only⟩
                  dsimp only
                  split_ifs
                  · have deletes : Program.Triple (logged handle)
                        (PassFresh store it (iovec ++ [rangeIovec store it.getIterLoc]))
                        (batchDeleteSync (iovec ++ [rangeIovec store it.getIterLoc]))
                        fun _ => PassFresh store it
                          (iovec ++ [rangeIovec store it.getIterLoc]) := triple_batchDeleteSync
                    refine Program.Triple.bind (deletes.strengthen joined) fun deleted => ?_
                    cases deleted with
                    | true =>
                        refine (inductionHypothesis 0 it []).strengthen fun _ fresh => ?_
                        exact ⟨⟨.nil, fresh.trimmed⟩, fresh.buffered⟩
                    | false =>
                        exact (triple_ends _ it _).strengthen fun _ fresh => fresh.toPassTrims
                  · exact (inductionHypothesis retCode it _).strengthen joined

/-- A pass that has nothing of an earlier pass left to read trims only what the
device returned during the pass. -/
theorem triple_startExpiry (maxRanges rounds : Nat) (it : KvBatchIterator)
    (read : it.numRangesFound ≤ it.pos + 1) :
    Program.Triple (logged handle) (fun log => log.trimmed = [])
      (startExpiry store iterType maxRanges rounds it) fun _ log =>
        Trims store log.returned log.trimmed := by
  have starts : ∀ log : PassLog σ, log.trimmed = [] → PassFresh store it [] log := by
    intro log untouched
    refine ⟨⟨.nil, ?_⟩, fun i above below => by omega⟩
    rw [untouched]
    exact .nil
  refine Program.Triple.bind ((triple_expiryLoop rounds 0 it []).strengthen starts)
    fun ended => ?_
  obtain ⟨ended, it⟩ := ended
  rcases ended with _ | ⟨retCode, iovec⟩
  · exact Program.Triple.done fun _ held => held.1
  · dsimp only
    split
    · refine Program.Triple.bind (triple_batchDeleteSync.strengthen fun _ held =>
        (held.2 _ _ rfl).drained it) fun deleted => ?_
      exact Program.Triple.done fun _ held => held.trimmed
    · exact Program.Triple.done fun _ held => held.1

end PassSteps

/-- The runs of an expiry manager: a new iterator and then one pass after the other,
each from an iterator that meets the condition and with the world as it has become
in between. The last pass may be looked at before it ends. The logs are those of
the passes. -/
inductive PassRun (store : NvmKvStore) (iterType : ExpiryIter) (maxRanges : Nat)
    (handle : Program.Handler ExpiryOp ExpiryRes σ) (allowed : KvBatchIterator → Prop) :
    Option KvBatchIterator → List (PassLog σ) → Prop where
  | allocated (memory : KvBatchIterator) :
      PassRun store iterType maxRanges handle allowed
        (some ((KvBatchIterator.allocIter memory).resetIterator store maxRanges)) []
  | pass {it next : KvBatchIterator} {logs : List (PassLog σ)} {log : PassLog σ}
      {retCode : Except NvmErrorCode Nat} (rounds : Nat) (world : σ)
      (before : PassRun store iterType maxRanges handle allowed (some it) logs)
      (met : allowed it)
      (ran : (startExpiry store iterType maxRanges rounds it).run (logged handle)
        ⟨world, [], []⟩ = some ((some retCode, next), log)) :
      PassRun store iterType maxRanges handle allowed (some next) (logs ++ [log])
  | running {it next : KvBatchIterator} {logs : List (PassLog σ)} {log : PassLog σ}
      (rounds : Nat) (world : σ)
      (before : PassRun store iterType maxRanges handle allowed (some it) logs)
      (met : allowed it)
      (ran : (startExpiry store iterType maxRanges rounds it).run (logged handle)
        ⟨world, [], []⟩ = some ((none, next), log)) :
      PassRun store iterType maxRanges handle allowed none (logs ++ [log])

/-- When every pass starts with nothing left to read in the buffer, every pass trims
only ranges that the device returned during that pass. -/
theorem expiry_passes_fresh (store : NvmKvStore) (iterType : ExpiryIter) (maxRanges : Nat)
    (handle : Program.Handler ExpiryOp ExpiryRes σ) {reached : Option KvBatchIterator}
    {logs : List (PassLog σ)}
    (run : PassRun store iterType maxRanges handle (fun it => it.numRangesFound ≤ it.pos + 1)
      reached logs) :
    ∀ log ∈ logs, ∀ vector ∈ log.trimmed, ∃ range ∈ log.returned,
      vector = rangeIovec store range := by
  induction run with
  | allocated memory => exact fun _ absent => nomatch absent
  | pass rounds world before met ran inductionHypothesis =>
      intro log member
      rcases List.mem_append.mp member with earlier | last
      · exact inductionHypothesis log earlier
      · rw [List.mem_singleton.mp last]
        exact triple_startExpiry maxRanges rounds _ met _ rfl _ _ ran
  | running rounds world before met ran inductionHypothesis =>
      intro log member
      rcases List.mem_append.mp member with earlier | last
      · exact inductionHypothesis log earlier
      · rw [List.mem_singleton.mp last]
        exact triple_startExpiry maxRanges rounds _ met _ rfl _ _ ran

/-- A device that returns the portions it is given, one after the other, and then
nothing more. -/
def portions : Program.Handler ExpiryOp ExpiryRes (List (List NvmBlockRange))
  | .checkPoolDelStatus, left => some (false, left)
  | .time, left => some (0, left)
  | .logicalRangeIterator range _ _, left => some (some (left.headD [], range), left.tail)
  | .readv _, left => some (none, left)
  | .batchDeleteSync _, left => some (true, left)

/-- A store in which all pairs have one expiry. -/
def globalStore : NvmKvStore :=
  { NvmKvStore.terabyteStore with expiryMode := .globalExpiry, globalExpiry := 60 }

/-- An iterator in memory that was zeroed. -/
def blankIterator : KvBatchIterator where
  poolHash := 0
  numRangesFound := 0
  pos := 0
  rangeToIterate := ⟨0, 0⟩
  maxRanges := 0
  filters := ⟨0, 0, 0⟩
  ranges := fun _ => ⟨0, 0⟩

/-- The first pass of a run that trims a range. -/
theorem expiry_passes_fresh_first :
    ∃ reached logs, PassRun globalStore .glbExpIter 16 portions
        (fun it => it.numRangesFound ≤ it.pos + 1) reached logs ∧ logs ≠ [] ∧
      ∀ log ∈ logs, ∀ vector ∈ log.trimmed, ∃ range ∈ log.returned,
        vector = rangeIovec globalStore range := by
  have start : PassRun globalStore .glbExpIter 16 portions
      (fun it => it.numRangesFound ≤ it.pos + 1) _ [] := .allocated blankIterator
  have first := PassRun.pass 4 [[⟨32768, 1⟩]] start (by decide) rfl
  exact ⟨_, _, first, List.cons_ne_nil _ _, expiry_passes_fresh _ _ _ _ first⟩

/-- The first pass gets two ranges and trims them. The second one gets none and
trims the second range again. -/
theorem stale_range_trimmed :
    ∃ reached logs, PassRun globalStore .glbExpIter 16 portions (fun _ => True) reached logs ∧
      ∃ log ∈ logs, ∃ vector ∈ log.trimmed,
        ¬∃ range ∈ log.returned, vector = rangeIovec globalStore range := by
  have start : PassRun globalStore .glbExpIter 16 portions (fun _ => True) _ [] :=
    .allocated blankIterator
  have first := PassRun.pass 4 [[⟨32768, 1⟩, ⟨65536, 1⟩]] start trivial rfl
  have second := PassRun.pass 4 [] first trivial rfl
  refine ⟨_, _, second, _, List.mem_append_right _ (List.mem_singleton_self _),
    rangeIovec globalStore ⟨65536, 1⟩, List.mem_singleton_self _, ?_⟩
  rintro ⟨range, absent, _⟩
  exact nomatch absent

end Nvmkv
