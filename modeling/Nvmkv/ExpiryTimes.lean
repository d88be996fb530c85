import Nvmkv.CacheRuns
import Nvmkv.LookupsAgree
import Nvmkv.PoolDeletionScan
import Nvmkv.RoundTrip
import Nvmkv.UniqueKeys

/-!
# Expiry times

`kv_process_for_write` adds the expiry of a pair to the time of the put and keeps 32 bits of
the sum; zero stands for a pair that never expires. Four checks compare this number with the
time: that of the two lookups, `is_valid_for_del` of the scanners, and that of the cache for
an entry which the put has created.

All four agree with each other. They agree with the sum itself as long as it is no greater
than `2 ^ 32`: at `2 ^ 32` the stored number is zero, and no 32-bit time is later than the
sum. A greater sum wraps to a time before the put.
-/

namespace Nvmkv

variable {ι : Type}

/-- A pair has been stored by the vectors of a put at an address where the lookups of its
key end. -/
structure StoredBy (store : NvmKvStore) (poolId : UInt32) (pair : NvmKvIovec)
    (iovec : List NvmIovec) (lba : Nat) (state : StoreState ι) : Prop where
  accepted : keyAccepted state poolId pair.key = true
  bounded : pair.valueLen ≤ nvmKvMaxValueSize
  sector : state.media lba = Media.applyBatch (fun _ => none) store.sectorSize iovec lba
  found : lookupLba store state.media poolId pair.key = some lba

/-- The lookups, the scanner's check and the cache's check treat a pair as live or as
expired. The entry of the cache is one that the put has created: the key was looked up before
and not found. -/
structure Treated (store : NvmKvStore) (thread : ι) (poolId : UInt32) (pair : NvmKvIovec)
    (putTime absExpiry lba : Nat) (state : StoreState ι) (live : Prop) : Prop where
  get : ∀ value valueLen readExact buf, kvValidateValue store true valueLen = true →
    Readable store (getBuffers store value valueLen buf) →
    ∃ got after, (kvGet store poolId pair.key value valueLen readExact (some buf)).run
        (answer store thread) state = some (got, after) ∧
      (live → ∃ result, got = .ok result) ∧ (¬live → got = .error .objectNotFound)
  existing : ∀ buf, ∃ existed after, (kvExists store poolId pair.key (some buf)).run
      (answer store thread) state = some (.ok existed, after) ∧ (existed.isSome = true ↔ live)
  scanner : ∀ (system : SystemState ι) (poolIdBefore : Nat), system.store = state →
    ∃ code poolIdAfter, (isValidForDelIn store lba poolIdBefore).run (answerSystem store thread)
        system = some (.ok (code, poolIdAfter), system) ∧
      (live → code = 0) ∧ (¬live → code = 1)
  cache : ∀ bits (table : NvmKvCacheTable) getTime genCount, table.Indexed →
    (kvCacheGet bits table pair.key poolId true getTime).1 = false →
    ∃ context, kvCacheGet bits
        (kvCachePut bits table pair.key poolId pair.valueLen absExpiry genCount lba putTime
          (kvCacheGet bits table pair.key poolId true getTime).2)
        pair.key poolId true state.clock = (true, context) ∧
      (context.expired = false ↔ live)

section Stored

variable {store : NvmKvStore} {thread : ι} {poolId : UInt32} {pair : NvmKvIovec} {buf : Region}
  {putTime lba : Nat} {state : StoreState ι}

/-- The layout of the vectors of a pair. -/
def pairLayout (store : NvmKvStore) (pair : NvmKvIovec) : WriteLayout :=
  writeLayout store.capabilities pair.key.length pair.value pair.valueLen

/-- The sector at the address of a stored pair. -/
theorem StoredBy.first (stored : StoredBy store poolId pair
      (putIovec store poolId pair (pairLayout store pair) buf putTime lba) lba state) :
    state.media lba = some (firstSector store poolId pair (pairLayout store pair) buf putTime) := by
  have limit : nvmKvMaxValueSize = 1047552 := rfl
  have bounded := stored.bounded
  rw [stored.sector, putIovec]
  exact (congrFun (pairIovec_applied _ _ _ (by omega) lba _) lba).trans
    (pairWritten_first _ _ _ _ _ _)

/-- The header of a stored pair: it is one of a key, and its expiry is the sum. -/
theorem StoredBy.header (stored : StoredBy store poolId pair
      (putIovec store poolId pair (pairLayout store pair) buf putTime lba) lba state) :
    (storedHeader store state.media lba).isKey = true ∧
      (storedHeader store state.media lba).expiry =
        absoluteExpiry (putExpiry store pair) putTime % 2 ^ 32 := by
  have valid := stored.accepted
  rw [keyAccepted, Bool.and_eq_true] at valid
  obtain ⟨some, short⟩ := of_decide_eq_true valid.2
  have sector := @storedHeader_sector store _ _ _ stored.first
  constructor
  · have held : holds store state.media poolId pair.key lba = true := by
      rw [holds_sector short stored.first, pairLayout, headerMatches_firstSector short short]
      simp
    have keyLen := (holds_iff.mp held).keyLen
    rw [NvmKvHeader.isKey, keyLen]
    exact decide_eq_true ⟨by omega, short⟩
  · rw [sector]
    exact (readHeader_firstSector short stored.bounded).2.2

/-- Whether a time of 32 bits is past a stored number. -/
def Passed (absExpiry clock : Nat) : Prop := absExpiry ≠ 0 ∧ absExpiry < clock

/-- Whether a time has passed can be computed. -/
instance (absExpiry clock : Nat) : Decidable (Passed absExpiry clock) :=
  inferInstanceAs (Decidable (_ ∧ _))

/-- The number stored for the expiry of a pair. -/
theorem absoluteExpiry_word (expiry time : Nat) : absoluteExpiry expiry time < 2 ^ 32 := by
  unfold absoluteExpiry
  split
  · decide
  · exact Nat.mod_lt _ (by decide)

/-- What the lookups and the scanner compare. -/
theorem StoredBy.compared (arbitrary : store.expiryMode = .arbitraryExpiry)
    (stored : StoredBy store poolId pair
      (putIovec store poolId pair (pairLayout store pair) buf putTime lba) lba state)
    (word : state.clock < 2 ^ 32) :
    pairExpired store state.clock (storedHeader store state.media lba) =
        decide (Passed (absoluteExpiry (putExpiry store pair) putTime) state.clock) ∧
      (storedHeader store state.media lba).expiredAt state.clock =
        decide (Passed (absoluteExpiry (putExpiry store pair) putTime) state.clock) := by
  obtain ⟨_, expiry⟩ := stored.header
  rw [Nat.mod_eq_of_lt (absoluteExpiry_word _ _)] at expiry
  have time : state.clock % 2 ^ 32 = state.clock := Nat.mod_eq_of_lt word
  unfold pairExpired NvmKvHeader.expiredAt Passed
  rw [arbitrary, expiry, time]
  constructor
  · simp [and_comm]
  · rfl

/-- All four checks treat a stored pair as live until the stored number has passed. -/
theorem StoredBy.treated (arbitrary : store.expiryMode = .arbitraryExpiry)
    (stored : StoredBy store poolId pair
      (putIovec store poolId pair (pairLayout store pair) buf putTime lba) lba state)
    (word : state.clock < 2 ^ 32) :
    Treated store thread poolId pair putTime (absoluteExpiry (putExpiry store pair) putTime) lba
      state (¬Passed (absoluteExpiry (putExpiry store pair) putTime) state.clock) := by
  obtain ⟨isKey, _⟩ := stored.header
  obtain ⟨lookups, scanner⟩ := stored.compared arbitrary word
  have time : state.clock % 2 ^ 32 = state.clock := Nat.mod_eq_of_lt word
  generalize absoluteExpiry (putExpiry store pair) putTime = absExpiry at *
  constructor
  · intro value valueLen readExact buf accepted readable
    refine ⟨_, _, run_kvGet store thread state stored.accepted accepted readable, ?_⟩
    unfold getAnswer
    rw [stored.found]
    dsimp only
    rw [lookups]
    constructor
    · intro live
      rw [decide_eq_false live, if_neg Bool.false_ne_true]
      exact ⟨_, rfl⟩
    · intro expired
      rw [decide_eq_true (not_not.mp expired), if_pos rfl]
  · intro buf
    refine ⟨_, _, run_kvExists store thread state buf stored.accepted, ?_⟩
    unfold liveHeader
    rw [stored.found]
    dsimp only
    rw [lookups, Option.isSome_map]
    by_cases passed : Passed absExpiry state.clock
    · rw [decide_eq_true passed, if_pos rfl]
      exact iff_of_false Bool.false_ne_true (not_not.mpr passed)
    · rw [decide_eq_false passed, if_neg Bool.false_ne_true]
      exact iff_of_true rfl passed
  · rintro system poolIdBefore rfl
    refine ⟨_, _, run_isValidForDelIn store thread poolIdBefore isKey, ?_⟩
    rw [scanner]
    constructor
    · intro live
      rw [decide_eq_false live, if_neg Bool.false_ne_true]
    · intro expired
      rw [decide_eq_true (not_not.mp expired), if_pos rfl]
  · intro bits table getTime genCount indexed absent
    have valid := stored.accepted
    rw [keyAccepted, Bool.and_eq_true] at valid
    have nonempty : pair.key ≠ [] := List.length_pos_iff.mp (of_decide_eq_true valid.2).1
    obtain ⟨context, returned, _, _, _, _, expired⟩ := (put_delivered_iff bits (pair.key, poolId)
      indexed nonempty true getTime pair.valueLen absExpiry genCount lba putTime
      state.clock).mpr fun probe finds => by
        have succeeds := (kvCacheGet_succeeds_iff true getTime).mpr ⟨probe, finds⟩
        rw [absent] at succeeds
        cases succeeds
    refine ⟨context, returned, ?_⟩
    rw [time] at expired
    rw [← Bool.not_eq_true, expired]
    exact not_congr (and_iff_right rfl)

/-- A pair is not treated as live and as expired at one time. -/
theorem Treated.unique {absExpiry : Nat} {live other : Prop}
    (first : Treated store thread poolId pair putTime absExpiry lba state live)
    (second : Treated store thread poolId pair putTime absExpiry lba state other) :
    live ↔ other := by
  obtain ⟨existed, _, ran, same⟩ := first.existing fun _ => 0
  obtain ⟨existed', _, ran', same'⟩ := second.existing fun _ => 0
  rw [ran] at ran'
  cases ran'
  exact same.symm.trans same'

/-- How a pair is treated may be compared with either of two equivalent conditions. -/
theorem Treated.congr {absExpiry : Nat} {live other : Prop}
    (treated : Treated store thread poolId pair putTime absExpiry lba state live)
    (same : live ↔ other) :
    Treated store thread poolId pair putTime absExpiry lba state other := by
  rw [← propext same]
  exact treated

end Stored

/-- The stored number has passed at the times after the sum, and at no other time of 32 bits, just
when the sum is at most `2 ^ 32`. A larger sum has wrapped, and its number has passed one second
after it already. -/
theorem passed_iff_late {expiry time : Nat} (some : 0 < expiry) (expiryWord : expiry < 2 ^ 32)
    (timeWord : time < 2 ^ 32) :
    (∀ clock < 2 ^ 32, ¬Passed (absoluteExpiry expiry time) clock ↔ clock ≤ time + expiry) ↔
      time + expiry ≤ 2 ^ 32 := by
  unfold Passed absoluteExpiry
  rw [if_neg some.ne']
  constructor
  · intro agree
    by_contra wraps
    have live := (agree (time + expiry - 2 ^ 32 + 1) (by omega)).mpr (by omega)
    exact live ⟨by omega, by omega⟩
  · intro fits clock word
    rcases Nat.lt_or_eq_of_le fits with less | full
    · rw [Nat.mod_eq_of_lt (by omega)]
      omega
    · rw [Nat.add_comm, full, Nat.mod_self]
      omega

/-- A pair that a put prepares at some time, with an expiry of its own, and stores at its
address is treated as live at the times up to the sum of the two and as expired at every later
one, by all four checks and at every time of 32 bits, just when the sum is at most
`2 ^ 32`. -/
theorem expiry_honoured_iff (store : NvmKvStore) (thread : ι) (before state : StoreState ι)
    (poolId : UInt32) (pair : NvmKvIovec) (buf : Region) (lba absExpiry : Nat)
    (iovec : List NvmIovec) (arbitrary : store.expiryMode = .arbitraryExpiry)
    (some : 0 < pair.expiry) (expiryWord : pair.expiry < 2 ^ 32)
    (timeWord : before.clock < 2 ^ 32)
    (prepared : (kvProcessForWrite store.capabilities poolId pair (pairLayout store pair) buf
      (putExpiry store pair) lba).run (answer store thread) before =
        Option.some ((iovec, absExpiry), before))
    (stored : StoredBy store poolId pair iovec lba state) :
    (∀ clock < 2 ^ 32, Treated store thread poolId pair before.clock absExpiry lba
      { state with clock := clock } (clock ≤ before.clock + pair.expiry)) ↔
      before.clock + pair.expiry ≤ 2 ^ 32 := by
  rw [run_kvProcessForWrite] at prepared
  obtain ⟨rfl, rfl⟩ := Prod.mk.inj (Prod.mk.inj (Option.some.inj prepared)).1
  have own : putExpiry store pair = pair.expiry := by
    rw [putExpiry, arbitrary]
    exact if_neg (by decide)
  have treated : ∀ clock < 2 ^ 32, Treated store thread poolId pair before.clock
      (absoluteExpiry (putExpiry store pair) before.clock) lba { state with clock := clock }
      (¬Passed (absoluteExpiry (putExpiry store pair) before.clock) clock) := by
    intro clock word
    exact @StoredBy.treated ι store thread poolId pair buf before.clock lba
      { state with clock := clock } arbitrary
      ⟨stored.accepted, stored.bounded, stored.sector, stored.found⟩ word
  rw [← passed_iff_late some expiryWord timeWord, ← own]
  constructor
  · exact fun honoured clock word => (treated clock word).unique (honoured clock word)
  · exact fun agree clock word => (treated clock word).congr (agree clock word)

/-- A store whose pairs have expiry times of their own. -/
def arbitraryTerabyte : NvmKvStore :=
  { NvmKvStore.terabyteStore with expiryMode := .arbitraryExpiry }

/-- A pair with a value of 100 bytes. -/
def agingPair (expiry : Nat) : NvmKvIovec := ⟨[97], poolBuffer fun _ => 0, 100, expiry, 0, false⟩

/-- The address of its key. -/
def agingLba : Nat := arbitraryTerabyte.probeLba 0 [97] 0

/-- The vectors of its put at a time. -/
def agingIovec (expiry putTime : Nat) : List NvmIovec :=
  putIovec arbitraryTerabyte 0 (agingPair expiry) (pairLayout arbitraryTerabyte (agingPair expiry))
    (fun _ => 0) putTime agingLba

/-- The store with a clock and nothing but the pair on its media. -/
def agingState (expiry putTime clock : Nat) : StoreState Unit :=
  .opened (Media.applyBatch (fun _ => none) arbitraryTerabyte.sectorSize
    (agingIovec expiry putTime)) (fun _ => false) clock

/-- Preparing the put of the pair. -/
theorem agingPair_prepared (expiry : Nat) (before : StoreState Unit) :
    (kvProcessForWrite arbitraryTerabyte.capabilities 0 (agingPair expiry)
      (pairLayout arbitraryTerabyte (agingPair expiry)) (fun _ => 0)
      (putExpiry arbitraryTerabyte (agingPair expiry)) agingLba).run
        (answer arbitraryTerabyte ()) before =
      some ((agingIovec expiry before.clock,
        absoluteExpiry (putExpiry arbitraryTerabyte (agingPair expiry)) before.clock), before) :=
  run_kvProcessForWrite _ _ _ _ _ _ _ _

/-- The pair is stored at the first address of its key. -/
theorem agingPair_stored (expiry putTime clock : Nat) :
    StoredBy arbitraryTerabyte 0 (agingPair expiry) (agingIovec expiry putTime) agingLba
      (agingState expiry putTime clock) := by
  have short : (agingPair expiry).key.length ≤ nvmKvMaxKeySize := by
    change 1 ≤ 128
    decide
  refine ⟨rfl, by change 100 ≤ 1047552; decide, rfl, lookupLba_first ?_⟩
  have sector : (agingState expiry putTime clock).media agingLba =
      some (firstSector arbitraryTerabyte 0 (agingPair expiry)
        (pairLayout arbitraryTerabyte (agingPair expiry)) (fun _ => 0) putTime) := by
    change Media.applyBatch _ _ (putIovec _ _ _ _ _ _ _) _ = _
    rw [putIovec]
    exact (congrFun (pairIovec_applied _ _ _ (by change 100 < 2 ^ 63; decide) agingLba _)
      agingLba).trans (pairWritten_first _ _ _ _ _ _)
  exact (holds_sector short sector).trans
    ((headerMatches_firstSector short short).trans (decide_eq_true ⟨rfl, rfl⟩))

/-- A pair put at the time 5 for ten seconds, in its last second and in the next one. -/
theorem expiry_honoured_ten :
    Treated arbitraryTerabyte () 0 (agingPair 10) 5 15 agingLba (agingState 10 5 15)
        (15 ≤ 5 + 10) ∧
      Treated arbitraryTerabyte () 0 (agingPair 10) 5 15 agingLba (agingState 10 5 16)
        (16 ≤ 5 + 10) := by
  have honoured := (expiry_honoured_iff arbitraryTerabyte () (agingState 10 5 5)
    (agingState 10 5 0) 0 (agingPair 10) (fun _ => 0) agingLba 15 (agingIovec 10 5) rfl
    (by decide) (by decide) (by decide) (agingPair_prepared 10 (agingState 10 5 5))
    (agingPair_stored 10 5 0)).mpr (by decide)
  exact ⟨honoured 15 (by decide), honoured 16 (by decide)⟩

/-- The longest expiry, of a pair put at the time 2, is stored as the time 1: the pair is
treated as expired right away. -/
theorem expired_at_once :
    (kvProcessForWrite arbitraryTerabyte.capabilities 0 (agingPair 4294967295)
      (pairLayout arbitraryTerabyte (agingPair 4294967295)) (fun _ => 0)
      (putExpiry arbitraryTerabyte (agingPair 4294967295)) agingLba).run
        (answer arbitraryTerabyte ()) (agingState 4294967295 2 2) =
      some ((agingIovec 4294967295 2, 1), agingState 4294967295 2 2) ∧
    StoredBy arbitraryTerabyte 0 (agingPair 4294967295) (agingIovec 4294967295 2) agingLba
      (agingState 4294967295 2 2) ∧
    ¬ ∀ clock < 2 ^ 32, Treated arbitraryTerabyte () 0 (agingPair 4294967295) 2 1 agingLba
      (agingState 4294967295 2 clock) (clock ≤ 2 + 4294967295) := by
  refine ⟨agingPair_prepared _ _, agingPair_stored _ _ _, ?_⟩
  intro honoured
  have treated := @StoredBy.treated Unit arbitraryTerabyte () 0 (agingPair 4294967295) _ _ _ _ rfl
    (agingPair_stored 4294967295 2 2) (by decide)
  have live := (treated.unique (honoured 2 (by decide))).mpr (by decide)
  exact live (by decide)

end Nvmkv
