import Nvmkv.PreparedVectors
import Nvmkv.PutGetRoundTrip

/-!
# Keys that were never put

A lookup takes a sector at a probe address for a pair when the sector reads as the header
of the key. Sectors that were written as part of a value are read in the same way. The
addresses of two pools differ in their offsets, so the sectors behind the header of one
pair can be probe addresses of the other pool, and whoever chooses the value of the pair
chooses what is found there.

A run here interleaves any puts, batch puts and deletes with whatever else happens to a
store: pools come and go, expired pairs and deleted pools are trimmed, the metadata of the
store are written. Only puts write behind the metadata, so a key that was never put is not
found as long as no value has a sector at one of its addresses that reads as its header.
-/

namespace Nvmkv

/-- The calls that change pairs. -/
inductive PairCall where
  | kvPut (poolId : UInt32) (pair : NvmKvIovec) (allocation : Allocation)
  | kvBatchPut (poolId : UInt32) (kvIov : List NvmKvIovec) (allocation : BatchAllocation)
  | kvDelete (poolId : UInt32) (key : List UInt8) (buf : Option Region) (allocated : Bool)

namespace PairCall

/-- The call among all calls of the store. -/
def storeCall : PairCall → StoreCall
  | .kvPut poolId pair allocation => .kvPut poolId pair allocation
  | .kvBatchPut poolId kvIov allocation => .kvBatchPut poolId kvIov allocation
  | .kvDelete poolId key buf allocated => .kvDelete poolId key buf allocated

/-- The pool that a call is for. -/
def poolId : PairCall → UInt32
  | .kvPut poolId _ _ => poolId
  | .kvBatchPut poolId _ _ => poolId
  | .kvDelete poolId _ _ _ => poolId

/-- The pairs that a call puts. -/
def pairs : PairCall → List NvmKvIovec
  | .kvPut _ pair _ => [pair]
  | .kvBatchPut _ kvIov _ => kvIov
  | .kvDelete _ _ _ _ => []

/-- A call puts a key when it is for the pool and one of its pairs has the key. -/
def Puts (call : PairCall) (poolId : UInt32) (key : List UInt8) : Prop :=
  call.poolId = poolId ∧ ∃ pair ∈ call.pairs, pair.key = key

/-- The vectors of its pairs are filled. -/
def Filled (store : NvmKvStore) (call : PairCall) : Prop :=
  ∀ pair ∈ call.pairs, pair.Filled store

/-- What a call may ask of the store when its vectors are filled. -/
def Hands (store : NvmKvStore) (call : PairCall) (op : StoreOp) : Prop :=
  call.Filled store → HandsPrepared store call.poolId call.pairs op

/-- Every call hands over what it has prepared. -/
theorem hands (store : NvmKvStore) (noCache : store.cacheSize = 0) (call : PairCall) :
    (call.storeCall.program store).Calls (call.Hands store) := by
  by_cases filled : call.Filled store
  · have prepared : (call.storeCall.program store).Calls
        (HandsPrepared store call.poolId call.pairs) := by
      cases call with
      | kvPut poolId pair allocation =>
        exact Program.Calls.bind (handsPrepared_kvPut noCache (filled pair List.mem_cons_self))
          fun _ => trivial
      | kvBatchPut poolId kvIov allocation =>
        exact Program.Calls.bind (handsPrepared_kvBatchPut noCache filled) fun _ => trivial
      | kvDelete poolId key buf allocated =>
        exact Program.Calls.bind (handsPrepared_kvDelete noCache) fun _ => trivial
    exact prepared.mono fun op handed _ => handed
  · exact Program.Calls.any fun op done => absurd done filled

end PairCall

variable {ι : Type}

/-- A pair was put: a put of its key has handed a batch to the device. -/
def WasPut (calls : ι → PairCall) (log : List (ι × List NvmIovec)) (poolId : UInt32)
    (key : List UInt8) : Prop :=
  ∃ thread iovec, (thread, iovec) ∈ log ∧ (calls thread).Puts poolId key

/-- Whatever is found at the probe addresses of a key was put. -/
def NoForgedPairs (store : NvmKvStore) (calls : ι → PairCall) (state : StoreState ι) : Prop :=
  ∀ poolId key, kvValidateKey key = true → ∀ lba ∈ store.probes poolId key,
    holds store state.media poolId key lba = true → WasPut calls state.log poolId key

/-- What the rest of the system does to a store: sectors of the user data are trimmed, and
those of the metadata are written. Pools, clock and queues change as they will. -/
structure Around (store : NvmKvStore) (before after : StoreState ι) : Prop where
  log : after.log = before.log
  sectors : ∀ l, after.media l = before.media l ∨ after.media l = none ∨ l < store.dataStartLba

/-- A batch of a thread has the vectors that were prepared for it, and where it writes a
sector of a value at a probe address of a key, the sector does not read as the header of
the key, unless the key was put. -/
def SparesProbes (store : NvmKvStore) (calls : ι → PairCall) (thread : ι) :
    StoreOp → StoreState ι → Prop
  | .batchAtomic iovec, state =>
      (calls thread).Filled store ∧
        ∀ pair ∈ (calls thread).pairs, ∀ lba ∈ store.probes (calls thread).poolId pair.key,
          ∀ l sector, BatchCovers store iovec l → ValueSector store pair lba l sector →
            ∀ poolId key, kvValidateKey key = true → l ∈ store.probes poolId key →
              headerMatches sector poolId key = true →
                WasPut calls (state.log ++ [(thread, iovec)]) poolId key
  | _, _ => True

/-- The metadata have no header of a key at one of its probe addresses, unless the key was
put. -/
def MetadataSpare (store : NvmKvStore) (calls : ι → PairCall) (state : StoreState ι) : Prop :=
  ∀ poolId key, kvValidateKey key = true → ∀ lba ∈ store.probes poolId key,
    lba < store.dataStartLba → holds store state.media poolId key lba = true →
      WasPut calls state.log poolId key

/-- The configurations that a store reaches while calls of threads are interleaved with what
happens around them. -/
inductive PairRun [DecidableEq ι] (store : NvmKvStore) (calls : ι → PairCall)
    (allowed : ι → StoreOp → StoreState ι → Prop) (spare : StoreState ι → Prop)
    (start : StoreState ι) : StoreConfig ι → Prop where
  | start : PairRun store calls allowed spare start
      (startCalls store start fun thread => (calls thread).storeCall)
  | call {config next : StoreConfig ι} (before : PairRun store calls allowed spare start config)
      (taken : Config.Step (answer store) allowed config next) :
      PairRun store calls allowed spare start next
  | around {config : StoreConfig ι} {after : StoreState ι}
      (before : PairRun store calls allowed spare start config)
      (changed : Around store config.shared after) (admitted : spare after) :
      PairRun store calls allowed spare start ⟨after, config.threads⟩

section Steps

variable {store : NvmKvStore} {calls : ι → PairCall} {thread : ι} {state after : StoreState ι}

/-- What was put once stays so in a longer log. -/
theorem WasPut.mono {log more : List (ι × List NvmIovec)} {poolId : UInt32} {key : List UInt8}
    (put : WasPut calls log poolId key) : WasPut calls (log ++ more) poolId key := by
  obtain ⟨thread, iovec, member, puts⟩ := put
  exact ⟨thread, iovec, List.mem_append_left _ member, puts⟩

/-- A batch of prepared vectors forges nothing. -/
theorem NoForgedPairs.batch {iovec : List NvmIovec} (genuine : NoForgedPairs store calls state)
    (handed : (calls thread).Hands store (.batchAtomic iovec))
    (spares : SparesProbes store calls thread (.batchAtomic iovec) state) :
    NoForgedPairs store calls
      { state with
        media := state.media.applyBatch store.sectorSize iovec
        log := state.log ++ [(thread, iovec)] } := by
  obtain ⟨filled, spares⟩ := spares
  intro poolId key valid lba probed held
  obtain ⟨nonempty, short⟩ := of_decide_eq_true valid
  rcases Media.applyBatch_cases store.sectorSize iovec state.media lba with
    same | ⟨vector, member, covered, content⟩
  · rw [holds_congr short same] at held
    exact (genuine poolId key valid lba probed held).mono
  · cases left : Media.vectorContent store.sectorSize vector lba with
    | none => exact absurd (content.trans left) (mapped_of_holds nonempty held)
    | some sector =>
      rw [holds_sector short (content.trans left)] at held
      obtain ⟨pair, listed, pairValid, own, ownProbed, header | value⟩ :=
        (handed filled vector member).content covered left
      · obtain ⟨-, buf, clock, rfl⟩ := header
        have pairShort : pair.key.length ≤ nvmKvMaxKeySize := (of_decide_eq_true pairValid.1).2
        rw [headerMatches_firstSector pairShort short, decide_eq_true_eq] at held
        exact ⟨thread, iovec, List.mem_append_right _ List.mem_cons_self, held.1, pair, listed,
          held.2⟩
      · exact spares pair listed own ownProbed lba sector ⟨vector, member, covered⟩ value poolId
          key valid probed held

/-- A call that is no batch leaves the media and the log. -/
theorem answer_sectors {op : StoreOp} {answered : StoreRes op}
    (other : ∀ iovec, op ≠ .batchAtomic iovec)
    (reply : answer store thread op state = some (answered, after)) :
    after.media = state.media ∧ after.log = state.log := by
  cases op with
  | batchAtomic iovec => exact absurd rfl (other iovec)
  | checkEntry lba =>
    rw [answer] at reply
    split_ifs at reply <;> cases reply <;> exact ⟨rfl, rfl⟩
  | awaitEntry lba =>
    rw [answer] at reply
    split_ifs at reply
    cases reply
    exact ⟨rfl, rfl⟩
  | never => cases reply
  | _ =>
    cases reply
    exact ⟨rfl, rfl⟩

/-- Every call of a thread that spares the probe addresses of other keys forges nothing. -/
theorem NoForgedPairs.call {op : StoreOp} {answered : StoreRes op}
    (genuine : NoForgedPairs store calls state) (handed : (calls thread).Hands store op)
    (spares : SparesProbes store calls thread op state)
    (reply : answer store thread op state = some (answered, after)) :
    NoForgedPairs store calls after := by
  by_cases batch : ∃ iovec, op = .batchAtomic iovec
  · obtain ⟨iovec, rfl⟩ := batch
    cases reply
    exact genuine.batch handed spares
  · obtain ⟨media, log⟩ := answer_sectors (fun iovec same => batch ⟨iovec, same⟩) reply
    intro poolId key valid lba probed held
    rw [media] at held
    rw [log]
    exact genuine poolId key valid lba probed held

/-- Nor does what happens around the calls. -/
theorem NoForgedPairs.around (genuine : NoForgedPairs store calls state)
    (changed : Around store state after) (spare : MetadataSpare store calls after) :
    NoForgedPairs store calls after := by
  intro poolId key valid lba probed held
  obtain ⟨nonempty, short⟩ := of_decide_eq_true valid
  rcases changed.sectors lba with same | none | metadata
  · rw [changed.log]
    rw [holds_congr short same] at held
    exact genuine poolId key valid lba probed held
  · exact absurd none (mapped_of_holds nonempty held)
  · exact spare poolId key valid lba probed metadata held

end Steps

section Runs

variable [DecidableEq ι] {store : NvmKvStore} {calls : ι → PairCall} {start : StoreState ι}
  {config : StoreConfig ι}

/-- In a run that spares the probe addresses of other keys every thread keeps to the calls of
its program, and nothing is forged. Induction follows the steps. -/
theorem PairRun.genuine (noCache : store.cacheSize = 0)
    (empty : NoForgedPairs store calls start)
    (run : PairRun store calls (SparesProbes store calls) (MetadataSpare store calls) start
      config) :
    (∀ thread, (config.threads thread).Calls ((calls thread).Hands store)) ∧
      NoForgedPairs store calls config.shared := by
  induction run with
  | start => exact ⟨fun thread => PairCall.hands store noCache (calls thread), empty⟩
  | call before taken inductionHypothesis =>
    obtain ⟨handing, genuine⟩ := inductionHypothesis
    cases taken with
    | answered thread op next answered after pending admitted reply =>
      have here := handing thread
      rw [pending] at here
      refine ⟨?_, genuine.call here.1 admitted reply⟩
      intro other
      by_cases moved : other = thread
      · subst moved
        simpa only [Function.update_self] using here.2 answered
      · simpa only [Function.update_of_ne moved] using handing other
  | around before changed admitted inductionHypothesis =>
    exact ⟨inductionHypothesis.1, inductionHypothesis.2.around changed admitted⟩

end Runs

/-- A thread may come to the end of its call. Induction follows the calls that are left. -/
theorem PairRun.runs [DecidableEq ι] {store : NvmKvStore} {calls : ι → PairCall}
    {allowed : ι → StoreOp → StoreState ι → Prop} {spare : StoreState ι → Prop}
    {start after : StoreState ι} {thread : ι}
    (admitted : ∀ op state, allowed thread op state) {program : StoreM Unit} {shared : StoreState ι}
    {threads : ι → StoreM Unit} (before : PairRun store calls allowed spare start ⟨shared, threads⟩)
    (pending : threads thread = program)
    (ran : program.run (answer store thread) shared = some ((), after)) :
    PairRun store calls allowed spare start
      ⟨after, Function.update threads thread (.done ())⟩ := by
  induction program generalizing shared threads with
  | done result =>
    obtain ⟨-, rfl⟩ := Prod.mk.inj (Option.some.inj ran)
    have same : Function.update threads thread (.done ()) = threads := by
      rw [← pending, Function.update_eq_self]
    rw [same]
    exact before
  | call op next inductionHypothesis =>
    rw [Program.run_call] at ran
    obtain ⟨⟨answered, state⟩, reply, rest⟩ := Option.bind_eq_some_iff.mp ran
    have stepped := before.call (.answered ⟨shared, threads⟩ thread op next answered state pending
      (admitted op shared) reply)
    have later := inductionHypothesis answered stepped (Function.update_self _ _ _) rest
    rwa [Function.update_idem] at later

/-- All lookups of a key report that it is not there. -/
structure NotFound (store : NvmKvStore) (thread : ι) (state : StoreState ι) (poolId : UInt32)
    (key : List UInt8) : Prop where
  kvExists : ∀ buf, (Nvmkv.kvExists store poolId key (some buf)).run (answer store thread) state =
    some (.ok none, state)
  kvGetKeyInfo : ∀ buf, (Nvmkv.kvGetKeyInfo store poolId key (some buf)).run (answer store thread)
    state = some (.error .objectNotFound, state)
  kvGet : ∀ value valueLen readExact buf, kvValidateValue store true valueLen = true →
    Readable store (getBuffers store value valueLen buf) →
      (Nvmkv.kvGet store poolId key value valueLen readExact (some buf)).run (answer store thread)
        state = some (.error .objectNotFound, state)

/-- A key that none of its probe addresses holds is not found. -/
theorem NotFound.of_unheld {store : NvmKvStore} {thread : ι} {state : StoreState ι}
    {poolId : UInt32} {key : List UInt8} (accepted : keyAccepted state poolId key = true)
    (unheld : ∀ lba ∈ store.probes poolId key, holds store state.media poolId key lba = false) :
    NotFound store thread state poolId key := by
  have none : lookupLba store state.media poolId key = none := by
    rw [lookupLba, List.find?_eq_none]
    intro lba probed
    rw [unheld lba probed]
    exact Bool.false_ne_true
  have live : liveHeader store state poolId key = Option.none := by
    rw [liveHeader, none]
  have still : afterLookup store state poolId key = state := by
    rw [afterLookup, none]
  constructor
  · intro buf
    rw [run_kvExists store thread state buf accepted, live, still]
    rfl
  · intro buf
    rw [run_kvGetKeyInfo store thread state buf accepted, live, still]
  · intro value valueLen readExact buf valid readable
    rw [run_kvGet store thread state accepted valid readable, getAnswer, none, still]

/-- Without a cache, a key that was never put is not found in any state that a store
reaches, as long as no value and no part of the metadata has the header of another key at one
of the addresses of that key. -/
theorem no_forged_pairs [DecidableEq ι] (store : NvmKvStore) (calls : ι → PairCall)
    (start : StoreState ι) (config : StoreConfig ι) (noCache : store.cacheSize = 0)
    (empty : NoForgedPairs store calls start)
    (run : PairRun store calls (SparesProbes store calls) (MetadataSpare store calls) start
      config)
    (thread : ι) (poolId : UInt32) (key : List UInt8)
    (accepted : keyAccepted config.shared poolId key = true)
    (neverPut : ¬WasPut calls config.shared.log poolId key) :
    NotFound store thread config.shared poolId key := by
  obtain ⟨-, genuine⟩ := run.genuine noCache empty
  refine .of_unheld accepted fun lba probed => ?_
  have valid : kvValidateKey key = true := by
    rw [keyAccepted, Bool.and_eq_true] at accepted
    exact accepted.2
  rw [Bool.eq_false_iff]
  exact fun held => neverPut (genuine poolId key valid lba probed held)

section Forgery

/-- The key of the pool 1 whose header is forged. -/
def forgedKey : List UInt8 := [104, 97, 116, 97]

/-- A header of that key for a value of one byte behind it. -/
def forgedHeader : Region := writeHeader (fun _ => 0) 1 forgedKey 1 44 0 0

/-- A pair of the pool 0 with the header as its value. -/
def forgingPair : NvmKvIovec := ⟨[109], ⟨0, forgedHeader⟩, 512, 0, 0, true⟩

/-- A put of a pair like it whose value has other bytes. -/
def forgingCall (bytes : Region) : Unit → PairCall := fun _ =>
  .kvPut 0 (forgingPair.withBytes bytes) plentyMemory

/-- An empty store with the pools 0 and 1. -/
def openedTwoPools : StoreState Unit := .opened (fun _ => none) (fun i => i = 1) 0

/-- The first address of a key whose values look like headers. -/
def forgingLba : Nat := NvmKvStore.terabyteStore.probeLba 0 [109] 0

/-- The value of the pair lies at the first address of the forged key. -/
theorem forgedKey_address : NvmKvStore.terabyteStore.probeLba 1 forgedKey 0 = forgingLba + 1 := by
  decide

/-- No pair is forged in a store without pairs. -/
theorem openedTwoPools_empty {calls : Unit → PairCall} :
    NoForgedPairs NvmKvStore.terabyteStore calls openedTwoPools := by
  intro poolId key valid lba probed held
  rw [holds_unmapped (of_decide_eq_true valid).1 rfl] at held
  exact Bool.noConfusion held

/-- The put of the pair has everything it needs. -/
theorem forgingPair_ready : ∃ memory, PutReady NvmKvStore.terabyteStore openedTwoPools 0
    forgingPair plentyMemory memory [] forgingLba 0 := by
  have free : windowFree NvmKvStore.terabyteStore (fun _ => none) forgingLba = true :=
    windowFree_iff.mpr fun _ _ => rfl
  obtain ⟨address, _, old⟩ := @replaceAddress_first Unit NvmKvStore.terabyteStore openedTwoPools 0
    [109] rfl (.inl free)
  have length : placedLength NvmKvStore.terabyteStore 0 (fun _ => none) forgingLba = 0 := by
    rw [placedLength, free, Bool.true_or, if_pos rfl]
  have replaced : replacedLength NvmKvStore.terabyteStore openedTwoPools 0 [109] = 0 :=
    old.trans length
  refine ⟨_, rfl, rfl, ⟨_, rfl⟩, ?_, rfl, rfl⟩
  rw [putTarget_replace rfl]
  refine (congrArg _ address).trans ?_
  have shorter : forgingPair.key = [109] := rfl
  simp only [Option.map_some, shorter, replaced, Nat.not_lt_zero, if_false]
  rfl

/-- The put of the pair announces the vectors that it fills. -/
theorem forgingCall_filled (bytes : Region) (thread : Unit) :
    (forgingCall bytes thread).Filled NvmKvStore.terabyteStore := by
  intro pair listed
  rw [List.mem_singleton.mp listed]
  have filled : forgingPair.Filled NvmKvStore.terabyteStore := by decide
  exact filled

/-- A put of the pair runs to its end and leaves the bytes of the value at the first address of
the key of the other pool. -/
theorem forgingCall_written (bytes : Region) :
    ∃ after, ((forgingCall bytes ()).storeCall.program NvmKvStore.terabyteStore).run
        (answer NvmKvStore.terabyteStore ()) openedTwoPools = some ((), after) ∧
      after.media (NvmKvStore.terabyteStore.probeLba 1 forgedKey 0) = some bytes ∧
      keyAccepted after 1 forgedKey = true := by
  obtain ⟨memory, plain⟩ := forgingPair_ready
  have ready := plain.withBytes bytes
  obtain ⟨buf, ran⟩ := ready.run () fun _ => rfl
  have counted : CountsVectors NvmKvStore.terabyteStore.capabilities (bufferLength
      NvmKvStore.terabyteStore.capabilities forgingPair.key.length forgingPair.valueLen) :=
    PowerOfTwoLimit.counts ⟨⟨10, by decide⟩, by decide⟩ (by decide)
  have written := @PutReady.media_after _ _ () _ _ _ _ _ _ _ ready (.inr rfl) counted buf
  generalize reached : openedTwoPools.afterPut NvmKvStore.terabyteStore () 0
    (forgingPair.withBytes bytes) _ forgingLba = after at ran written
  refine ⟨after, ?_, ?_, ?_⟩
  · change (kvPut NvmKvStore.terabyteStore 0 (forgingPair.withBytes bytes) plentyMemory >>=
      fun _ => pure ()).run _ _ = _
    rw [Program.run_bind, ran]
    rfl
  · have user : (writeLayout NvmKvStore.terabyteStore.capabilities forgingPair.key.length
        (forgingPair.withBytes bytes).value forgingPair.valueLen).userBufferUsage = true := rfl
    have sectors : 0 < valueSectors NvmKvStore.terabyteStore.capabilities
        (forgingPair.withBytes bytes).valueLen := by
      rw [NvmKvIovec.withBytes_valueLen]
      decide
    rw [forgedKey_address, written, pairWritten, if_pos (by exact user),
      Media.write_inside ⟨le_rfl, Nat.lt_add_of_pos_right sectors⟩, Nat.sub_self, Nat.zero_mul,
      Region.drop_zero]
    rfl
  · rw [← reached]
    rfl

/-- A put of a pair in the pool 0 does not put the key of the pool 1. -/
theorem forgingCall_other {bytes : Region} {log : List (Unit × List NvmIovec)} :
    ¬WasPut (forgingCall bytes) log 1 forgedKey := by
  rintro ⟨_, _, -, pool, -⟩
  exact absurd (show (0 : UInt32) = 1 from pool) (by decide)

/-- A sector of ones reads as the header of no key. -/
theorem headerMatches_ones {sector : Region} (ones : ∀ i, sector i = 1) {poolId : UInt32}
    {key : List UInt8} (valid : kvValidateKey key = true) :
    headerMatches sector poolId key = false := by
  have short : key.length ≤ nvmKvMaxKeySize := (of_decide_eq_true valid).2
  have length : (readHeader sector).keyLen = 16843009 := by
    simp only [readHeader, Region.word, ones]
    rfl
  rw [Bool.eq_false_iff]
  intro same
  have differs := (of_decide_eq_true same).1
  rw [length] at differs
  exact absurd (differs.trans_le short) (by decide)

/-- The pair is put with ones as its value. They lie at the first address of the key of the other
pool, which is not found. -/
theorem no_forged_pairs_ones :
    ∃ config, PairRun NvmKvStore.terabyteStore (forgingCall fun _ => 1)
        (SparesProbes NvmKvStore.terabyteStore (forgingCall fun _ => 1))
        (MetadataSpare NvmKvStore.terabyteStore (forgingCall fun _ => 1)) openedTwoPools config ∧
      config.shared.media (NvmKvStore.terabyteStore.probeLba 1 forgedKey 0) = some (fun _ => 1) ∧
      NotFound NvmKvStore.terabyteStore () config.shared 1 forgedKey := by
  obtain ⟨after, called, sector, accepted⟩ := forgingCall_written fun _ => 1
  have spares : ∀ op shared, SparesProbes NvmKvStore.terabyteStore (forgingCall fun _ => 1) () op
      shared := by
    intro op shared
    cases op with
    | batchAtomic iovec =>
      refine ⟨forgingCall_filled _ (), ?_⟩
      intro pair listed lba _ l sector _ value poolId key valid _ matched
      rw [List.mem_singleton.mp listed] at value
      obtain ⟨_, i, _, _, rfl⟩ := value
      exact absurd ((headerMatches_ones (fun _ => rfl) valid).symm.trans matched)
        Bool.false_ne_true
    | _ => trivial
  have begun : PairRun NvmKvStore.terabyteStore (forgingCall fun _ => 1)
      (SparesProbes NvmKvStore.terabyteStore (forgingCall fun _ => 1))
      (MetadataSpare NvmKvStore.terabyteStore (forgingCall fun _ => 1)) openedTwoPools _ := .start
  have run := begun.runs spares rfl called
  exact ⟨_, run, sector, no_forged_pairs NvmKvStore.terabyteStore (forgingCall fun _ => 1)
    openedTwoPools _ rfl openedTwoPools_empty run () 1 forgedKey accepted forgingCall_other⟩

/-- The put of a value loses the key that the value forges: it is found in a pool where it
was never put. -/
theorem value_forges_pair :
    ¬∀ (store : NvmKvStore) (calls : Unit → PairCall) (start : StoreState Unit)
      (config : StoreConfig Unit), store.cacheSize = 0 → NoForgedPairs store calls start →
      PairRun store calls (fun thread _ _ => (calls thread).Filled store)
        (MetadataSpare store calls) start config →
      ∀ poolId key, keyAccepted config.shared poolId key = true →
        ¬WasPut calls config.shared.log poolId key →
          NotFound store () config.shared poolId key := by
  intro unfound
  obtain ⟨after, called, sector, accepted⟩ := forgingCall_written forgedHeader
  have run : PairRun NvmKvStore.terabyteStore (forgingCall forgedHeader)
      (fun thread _ _ => (forgingCall forgedHeader thread).Filled NvmKvStore.terabyteStore)
      (MetadataSpare NvmKvStore.terabyteStore (forgingCall forgedHeader)) openedTwoPools
      ⟨after, Function.update _ () (.done ())⟩ :=
    PairRun.runs (fun _ _ => forgingCall_filled forgedHeader ()) .start rfl called
  have unfounded := (unfound _ _ _ _ rfl openedTwoPools_empty run 1 forgedKey accepted
    forgingCall_other).kvExists fun _ => 0
  have held : holds NvmKvStore.terabyteStore after.media 1 forgedKey
      (NvmKvStore.terabyteStore.probeLba 1 forgedKey 0) = true := by
    rw [holds_sector (by decide) sector, forgedHeader,
      headerMatches_writeHeader _ _ _ _ _ _ _ _ _ (by decide)]
    rfl
  have found : lookupLba NvmKvStore.terabyteStore after.media 1 forgedKey =
      some (NvmKvStore.terabyteStore.probeLba 1 forgedKey 0) := by
    have addresses : NvmKvStore.terabyteStore.probes 1 forgedKey =
        NvmKvStore.terabyteStore.probeLba 1 forgedKey 0 ::
          (List.range' 1 7).map (NvmKvStore.terabyteStore.probeLba 1 forgedKey) := rfl
    rw [lookupLba, addresses, List.find?_cons_of_pos held]
  rw [run_kvExists _ () after _ accepted, liveHeader, found] at unfounded
  cases unfounded

end Forgery

end Nvmkv
