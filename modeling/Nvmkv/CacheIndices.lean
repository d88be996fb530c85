import Nvmkv.CacheProbing

/-!
# Indices into the hash table of the cache

The hash table has a power of two of entries: as many as the byte budget pays for,
rounded down by a loop that halves their number. The slots of a key are computed
elsewhere, by the hash function, which is told only the exponent. It folds a hash in one
of two ways, answers zero for a table of a single entry, and reduces every later probe
on its own.

All these slots lie in the table. So the three operations look at no entry beyond it,
which is said here as follows: tables that agree on the entries that exist give the
same results.
-/

namespace Nvmkv

/-- The halvings that `initialize` counts until no entry is left. -/
def countedHalvings (numCacheEntries : Nat) : Nat :=
  if numCacheEntries >>> 1 = 0 then 0 else countedHalvings (numCacheEntries >>> 1) + 1
termination_by numCacheEntries
decreasing_by
  rename_i more
  rw [Nat.shiftRight_eq_div_pow] at more ⊢
  omega

/-- The entries of the table (`m_total_entries`): a bit of a 64-bit word. -/
def mTotalEntries (cacheSize : UInt64) : Nat :=
  (1 <<< cacheAddrBits cacheSize.toNat) % 2 ^ 64

/-- A function of the table that depends on the entries below a bound only. -/
def ReadsBelow (bound : Nat) {Result : Type} (read : NvmKvCacheTable → Result) : Prop :=
  ∀ table other : NvmKvCacheTable, (∀ slot < bound, table slot = other slot) →
    read table = read other

/-- The exponent of the table is the number of halvings counted. -/
theorem countedHalvings_eq (numCacheEntries : Nat) :
    countedHalvings numCacheEntries = Nat.log2 numCacheEntries := by
  induction numCacheEntries using Nat.strongRecOn with
  | ind numCacheEntries inductionHypothesis =>
    rw [countedHalvings, Nat.log2_def]
    have half : numCacheEntries >>> 1 = numCacheEntries / 2 := Nat.shiftRight_one _
    rw [half]
    by_cases several : 2 ≤ numCacheEntries
    · rw [if_neg (by omega), if_pos several, inductionHypothesis _ (by omega)]
    · rw [if_pos (by omega), if_neg several]

/-- A budget of 64 bits pays for fewer than `2 ^ 57` entries. -/
theorem cacheAddrBits_lt (cacheSize : UInt64) : cacheAddrBits cacheSize.toNat < 57 := by
  have entries : cacheSize.toNat / cacheEntryFootprint < 2 ^ 57 := by
    have budget := cacheSize.toNat_lt
    rw [cacheEntryFootprint]
    omega
  unfold cacheAddrBits
  by_cases none : cacheSize.toNat / cacheEntryFootprint = 0
  · rw [none]
    simp
  · exact (Nat.log2_lt none).mpr entries

/-- The bit does not leave the word. -/
theorem mTotalEntries_eq (cacheSize : UInt64) :
    mTotalEntries cacheSize = 2 ^ cacheAddrBits cacheSize.toNat := by
  have small : 2 ^ cacheAddrBits cacheSize.toNat < 2 ^ 64 :=
    Nat.pow_lt_pow_right (by norm_num) (Nat.lt_trans (cacheAddrBits_lt cacheSize) (by norm_num))
  rw [mTotalEntries, Nat.one_shiftLeft, Nat.mod_eq_of_lt small]

/-- A probe is zero or reduced by the size of the table. -/
theorem resolveColl_lt (bits : Nat) (key : List UInt8) (prevHash ntimes : Nat) :
    (cacheHashFunc bits).resolveColl key prevHash ntimes bits false < 2 ^ bits := by
  have positive : 0 < 2 ^ bits := Nat.two_pow_pos bits
  unfold NvmKvHashFunc.resolveColl
  split
  · exact positive
  · simp only [Bool.false_eq_true, if_false, NvmKvHashFunc.sequentialProbe, cacheHashFunc,
      Nat.sub_zero]
    exact Nat.mod_lt _ positive

section Loops

variable {bits : Nat} {table other : NvmKvCacheTable} {key : List UInt8} {poolId : UInt32}
  {init : Nat}

/-- An eviction map only compares the entries collected in it. -/
theorem evictionBegin_congr {slots : List Nat}
    (agree : ∀ slot ∈ slots, table slot = other slot) :
    evictionBegin table slots = evictionBegin other slots := by
  induction slots with
  | nil => rfl
  | cons slot rest inductionHypothesis =>
    have later := inductionHypothesis fun slot among => agree slot (List.mem_cons_of_mem _ among)
    rw [evictionBegin, evictionBegin, later, agree slot List.mem_cons_self]
    cases chosen : evictionBegin other rest with
    | none => rfl
    | some oldest =>
      have among := (evictionBegin_oldest chosen).1
      simp only [agree oldest (List.mem_cons_of_mem _ among)]

/-- One more collected slot of the table. -/
theorem collected_below {bound visited : Nat} {slots : List Nat}
    (below : ∀ slot ∈ slots, slot < bound) (here : visited < bound) :
    ∀ slot ∈ slots ++ [visited], slot < bound := by
  intro collected among
  rcases List.mem_append.mp among with before | last
  · exact below collected before
  · rw [List.mem_singleton.mp last]
    exact here

/-- The lookup loop stays among the entries of the table: its slot, and those it has
collected for eviction. Induction follows the loop. -/
theorem kvCacheGetLoop_congr (agree : ∀ slot < 2 ^ bits, table slot = other slot)
    {checksExpiry : Bool} {curTime : Nat} :
    ∀ {fuel hashItr hashVal : Nat} {context : NvmKvCacheContext} {eviction : List Nat},
      hashVal < 2 ^ bits → (∀ slot ∈ eviction, slot < 2 ^ bits) →
      kvCacheGetLoop bits table key poolId checksExpiry curTime init fuel hashItr hashVal context
          eviction =
        kvCacheGetLoop bits other key poolId checksExpiry curTime init fuel hashItr hashVal
          context eviction := by
  intro fuel
  induction fuel with
  | zero =>
    intro hashItr hashVal context eviction _ collected
    have sameMap : evictionBegin table eviction = evictionBegin other eviction :=
      evictionBegin_congr fun slot among => agree slot (collected slot among)
    rw [kvCacheGetLoop, kvCacheGetLoop, sameMap]
    cases chosen : evictionBegin other eviction with
    | none => rfl
    | some oldest =>
      have among := (evictionBegin_oldest chosen).1
      simp only [agree oldest (collected oldest among)]
  | succ fuel inductionHypothesis =>
    intro hashItr hashVal context eviction here collected
    rw [kvCacheGetLoop, kvCacheGetLoop, agree hashVal here,
      inductionHypothesis (resolveColl_lt _ _ _ _) (collected_below collected here),
      inductionHypothesis here collected]

/-- The search of an insertion stays among them too, and ends at one of them. -/
theorem kvCachePutLoop_congr (agree : ∀ slot < 2 ^ bits, table slot = other slot) :
    ∀ {fuel hashItr hashVal : Nat} {eviction : List Nat},
      hashVal < 2 ^ bits → (∀ slot ∈ eviction, slot < 2 ^ bits) →
      kvCachePutLoop bits table key poolId init fuel hashItr hashVal eviction =
        kvCachePutLoop bits other key poolId init fuel hashItr hashVal eviction := by
  intro fuel
  induction fuel with
  | zero =>
    intro hashItr hashVal eviction _ collected
    have sameMap : evictionBegin table eviction = evictionBegin other eviction :=
      evictionBegin_congr fun slot among => agree slot (collected slot among)
    rw [kvCachePutLoop, kvCachePutLoop, sameMap]
  | succ fuel inductionHypothesis =>
    intro hashItr hashVal eviction here collected
    rw [kvCachePutLoop, kvCachePutLoop, agree hashVal here,
      inductionHypothesis (resolveColl_lt _ _ _ _) (collected_below collected here)]

/-- The index that a put ends at is one of the table. Induction is on the attempts left. -/
theorem kvCachePutLoop_lt :
    ∀ {fuel hashItr hashVal : Nat} {eviction : List Nat},
      hashVal < 2 ^ bits → (∀ slot ∈ eviction, slot < 2 ^ bits) →
      (kvCachePutLoop bits table key poolId init fuel hashItr hashVal eviction).1 < 2 ^ bits := by
  intro fuel
  induction fuel with
  | zero =>
    intro hashItr hashVal eviction here collected
    rw [kvCachePutLoop]
    cases chosen : evictionBegin table eviction with
    | none => exact here
    | some oldest => exact collected oldest (evictionBegin_oldest chosen).1
  | succ fuel inductionHypothesis =>
    intro hashItr hashVal eviction here collected
    rw [kvCachePutLoop]
    split
    · split
      · exact here
      · exact inductionHypothesis (resolveColl_lt _ _ _ _) (collected_below collected here)
    · exact here

/-- And so does the search of a deletion. -/
theorem kvCacheDeleteLoop_congr (agree : ∀ slot < 2 ^ bits, table slot = other slot) :
    ∀ {fuel hashItr hashVal : Nat}, hashVal < 2 ^ bits →
      kvCacheDeleteLoop bits table key poolId init fuel hashItr hashVal =
        kvCacheDeleteLoop bits other key poolId init fuel hashItr hashVal := by
  intro fuel
  induction fuel with
  | zero =>
    intro hashItr hashVal _
    rw [kvCacheDeleteLoop, kvCacheDeleteLoop]
  | succ fuel inductionHypothesis =>
    intro hashItr hashVal here
    rw [kvCacheDeleteLoop, kvCacheDeleteLoop, agree hashVal here,
      inductionHypothesis (resolveColl_lt _ _ _ _)]

/-- So is the index that a deletion ends at. Induction is on the attempts left. -/
theorem kvCacheDeleteLoop_lt :
    ∀ {fuel hashItr hashVal slot : Nat}, hashVal < 2 ^ bits →
      kvCacheDeleteLoop bits table key poolId init fuel hashItr hashVal = some slot →
      slot < 2 ^ bits := by
  intro fuel
  induction fuel with
  | zero =>
    intro hashItr hashVal slot _ found
    rw [kvCacheDeleteLoop] at found
    cases found
  | succ fuel inductionHypothesis =>
    intro hashItr hashVal slot here found
    rw [kvCacheDeleteLoop] at found
    split at found
    · cases found
      exact here
    · exact inductionHypothesis (resolveColl_lt _ _ _ _) found

/-- So the entry that a deletion hands back is an entry of the table. -/
theorem kvCacheDelete_congr (agree : ∀ slot < 2 ^ bits, table slot = other slot) :
    (kvCacheDelete bits table key poolId).1 = (kvCacheDelete bits other key poolId).1 := by
  have hashed : (cacheHashFunc bits).keyHash key poolId bits false < 2 ^ bits :=
    NvmKvHashFunc.keyHash_lt _ _ _
  rw [kvCacheDelete, kvCacheDelete, kvCacheDeleteLoop_congr agree hashed]
  split
  · rename_i slot found
    simp only [agree slot (kvCacheDeleteLoop_lt hashed found)]
  · rfl

end Loops

/-- A lookup depends on the entries of the table only. -/
theorem kvCacheGet_readsBelow (bits : Nat) (key : List UInt8) (poolId : UInt32)
    (checksExpiry : Bool) (time : Nat) :
    ReadsBelow (2 ^ bits) fun table => kvCacheGet bits table key poolId checksExpiry time := by
  intro table other agree
  exact kvCacheGetLoop_congr agree (NvmKvHashFunc.keyHash_lt _ _ _) (by simp)

/-- The slots that the operations of the cache compute for a key. -/
structure IndicesWithin (bits total : Nat) (key : List UInt8) (poolId : UInt32) : Prop where
  hashed : (cacheHashFunc bits).keyHash key poolId bits false < total
  probed : ∀ ntimes, (cacheHashFunc bits).resolveColl key
    ((cacheHashFunc bits).keyHash key poolId bits false) ntimes bits false < total
  gets : ∀ checksExpiry time, ReadsBelow total fun table =>
    kvCacheGet bits table key poolId checksExpiry time
  puts : ReadsBelow total fun table =>
    kvCachePutLoop bits table key poolId
      ((cacheHashFunc bits).keyHash key poolId bits false) mCollisionLimit 0
      ((cacheHashFunc bits).keyHash key poolId bits false) []
  putTarget : ∀ table, (kvCachePutLoop bits table key poolId
      ((cacheHashFunc bits).keyHash key poolId bits false) mCollisionLimit 0
      ((cacheHashFunc bits).keyHash key poolId bits false) []).1 < total
  deletes : ReadsBelow total fun table => (kvCacheDelete bits table key poolId).1
  deleteTarget : ∀ table slot, kvCacheDeleteLoop bits table key poolId
      ((cacheHashFunc bits).keyHash key poolId bits false) mCollisionLimit 0
      ((cacheHashFunc bits).keyHash key poolId bits false) = some slot → slot < total

/-- Every slot that the operations of the cache compute for a key lies in the table: the
hash, every probe after it, what a lookup, an insertion and a deletion look at, and the
slots at which the last two end. The exponent handed to the hash function is the number
of halvings counted, and the table has that power of two of entries, one or more. -/
theorem cache_indices_within (cacheSize : UInt64) (key : List UInt8) (poolId : UInt32) :
    cacheAddrBits cacheSize.toNat = countedHalvings (cacheSize.toNat / cacheEntryFootprint) ∧
    IndicesWithin (cacheAddrBits cacheSize.toNat) (mTotalEntries cacheSize) key poolId := by
  constructor
  · rw [countedHalvings_eq]
    rfl
  · rw [mTotalEntries_eq]
    have hashed : (cacheHashFunc (cacheAddrBits cacheSize.toNat)).keyHash key poolId
        (cacheAddrBits cacheSize.toNat) false < 2 ^ cacheAddrBits cacheSize.toNat :=
      NvmKvHashFunc.keyHash_lt _ _ _
    constructor
    · exact hashed
    · intro ntimes
      exact resolveColl_lt _ _ _ _
    · intro checksExpiry time
      exact kvCacheGet_readsBelow _ _ _ _ _
    · intro table other agree
      exact kvCachePutLoop_congr agree hashed (by simp)
    · intro table
      exact kvCachePutLoop_lt hashed (by simp)
    · intro table other agree
      exact kvCacheDelete_congr agree
    · intro table slot found
      exact kvCacheDeleteLoop_lt hashed found

end Nvmkv
