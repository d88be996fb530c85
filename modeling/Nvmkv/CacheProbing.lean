import Nvmkv.Cache
import Nvmkv.ProbedTable

/-!
# What the collision cache finds and replaces

The three loops of the cache visit the same slots for a key: the slot of its hash,
that slot once more, and the six after it, around the end of the table. A lookup ends
at the key, at the first empty slot, or with the oldest of eight entries of other
keys; an insertion that is given the context of that lookup writes the one slot that
the lookup ended with.

All of this holds of any table whose entries know their slots. The operations keep
that, because they fill and empty an entry around its index.
-/

namespace Nvmkv

/-- A key with its pool. -/
abbrev CacheKey := List UInt8 × UInt32

/-- The slots visited for a key, by the number of collisions before. -/
def cacheSlot (bits : Nat) (key : CacheKey) : Nat → Nat
  | 0 => (cacheHashFunc bits).keyHash key.1 key.2 bits false
  | collisions + 1 => (cacheHashFunc bits).resolveColl key.1
      ((cacheHashFunc bits).keyHash key.1 key.2 bits false) collisions bits false

/-- The cache as a table probed along paths. -/
def cachePaths (bits : Nat) : ProbePaths Nat CacheKey := ⟨mCollisionLimit, cacheSlot bits⟩

/-- The key of an entry, unless the entry is empty. -/
def NvmKvCacheEntry.owner (entry : NvmKvCacheEntry) : Option CacheKey :=
  if entry.key = [] then none else some (entry.key, entry.poolId)

/-- The keys in the slots of the table. -/
def NvmKvCacheTable.owners (table : NvmKvCacheTable) : Nat → Option CacheKey :=
  fun slot => (table slot).owner

/-- Every entry knows its slot. -/
def NvmKvCacheTable.Indexed (table : NvmKvCacheTable) : Prop :=
  ∀ slot, (table slot).index = slot

variable {bits : Nat} {table : NvmKvCacheTable} {key : CacheKey} {entry : NvmKvCacheEntry}

/-- An entry without a key has no owner. -/
theorem NvmKvCacheEntry.owner_eq_none : entry.owner = none ↔ entry.key = [] := by
  unfold NvmKvCacheEntry.owner
  split <;> simp_all

/-- An entry with a key has the owner that its key and its pool name. -/
theorem NvmKvCacheEntry.owner_eq_some :
    entry.owner = some key ↔ entry.key ≠ [] ∧ entry.key = key.1 ∧ entry.poolId = key.2 := by
  unfold NvmKvCacheEntry.owner
  split <;> simp_all [Prod.ext_iff]

/-- The comparison of a filled entry decides whose it is. -/
theorem kvCacheEntryCompare_iff (filled : entry.key ≠ []) :
    kvCacheEntryCompare entry key.1 key.2 = true ↔ entry.owner = some key := by
  simp only [kvCacheEntryCompare, decide_eq_true_eq, NvmKvCacheEntry.owner_eq_some]
  exact ⟨fun same => ⟨filled, same⟩, fun owned => owned.2⟩

/-- Setting an entry keeps its index. -/
@[simp] theorem kvCacheEntrySet_index (key : List UInt8) (poolId : UInt32)
    (valueLen absExpiry genCount lba ts : Nat) :
    (kvCacheEntrySet entry key poolId valueLen absExpiry genCount lba ts).index = entry.index :=
  rfl

/-- The entries of a new table have their indices. -/
theorem NvmKvCacheTable.Indexed.initial : NvmKvCacheTable.initial.Indexed := fun _ => rfl

/-- An entry replaced by one with its index leaves every entry knowing its slot. -/
theorem NvmKvCacheTable.Indexed.update (indexed : table.Indexed) {slot : Nat}
    (kept : entry.index = (table slot).index) :
    NvmKvCacheTable.Indexed (Function.update table slot entry) := by
  intro other
  by_cases here : other = slot
  · subst here
    rw [Function.update_self, kept, indexed]
  · rw [Function.update_of_ne here, indexed]

/-- An entry that is changed changes the owner of its slot only. -/
theorem NvmKvCacheTable.owners_update (slot : Nat) :
    NvmKvCacheTable.owners (Function.update table slot entry) =
      Function.update table.owners slot entry.owner := by
  funext other
  by_cases here : other = slot
  · subst here
    simp only [NvmKvCacheTable.owners, Function.update_self]
  · simp only [NvmKvCacheTable.owners, Function.update_of_ne here]

/-- The first entry of the eviction map is an oldest one of those put into it. -/
theorem evictionBegin_oldest {slots : List Nat} {oldest : Nat}
    (chosen : evictionBegin table slots = some oldest) :
    oldest ∈ slots ∧ ∀ slot ∈ slots, (table oldest).ts ≤ (table slot).ts := by
  induction slots generalizing oldest with
  | nil => cases chosen
  | cons slot rest inductionHypothesis =>
    rw [evictionBegin] at chosen
    cases later : evictionBegin table rest with
    | none =>
      rw [later] at chosen
      cases chosen
      cases rest with
      | nil => simp
      | cons next more =>
        rw [evictionBegin] at later
        split at later
        · split at later <;> cases later
        · cases later
    | some candidate =>
      obtain ⟨member, least⟩ := inductionHypothesis later
      simp only [later] at chosen
      split at chosen
      · rename_i older
        cases chosen
        refine ⟨List.mem_cons_of_mem _ member, ?_⟩
        intro other among
        rcases List.mem_cons.mp among with same | behind
        · rw [same]
          exact Nat.le_of_lt older
        · exact least other behind
      · rename_i notOlder
        cases chosen
        refine ⟨List.mem_cons_self, ?_⟩
        intro other among
        rcases List.mem_cons.mp among with same | behind
        · rw [same]
        · exact Nat.le_trans (Nat.le_of_not_lt notOlder) (least other behind)

/-- A map into which something was put has a first entry. -/
theorem evictionBegin_isSome (table : NvmKvCacheTable) {slots : List Nat} (filled : slots ≠ []) :
    ∃ oldest, evictionBegin table slots = some oldest := by
  cases slots with
  | nil => exact absurd rfl filled
  | cons slot rest =>
    rw [evictionBegin]
    split
    · split
      · exact ⟨_, rfl⟩
      · exact ⟨_, rfl⟩
    · exact ⟨_, rfl⟩

/-- What a lookup gives back, by what it meets on the path of the key. -/
inductive CacheLookup (bits : Nat) (table : NvmKvCacheTable) (key : CacheKey)
    (checksExpiry : Bool) (curTime : Nat) : Bool × NvmKvCacheContext → Prop
  | found {probe : Nat} (finds : (cachePaths bits).Finds table.owners key probe) :
      CacheLookup bits table key checksExpiry curTime
        (true,
          { contextEntry := table (cacheSlot bits key probe)
            contextState := .cacheEntryFound
            expired := checksExpiry ∧ (table (cacheSlot bits key probe)).expiry ≠ 0 ∧
              (table (cacheSlot bits key probe)).expiry < curTime })
  | hole {probe : Nat} (within : probe < mCollisionLimit)
      (passes : (cachePaths bits).Passes table.owners key probe)
      (empty : table.owners (cacheSlot bits key probe) = none) :
      CacheLookup bits table key checksExpiry curTime
        (false,
          { contextEntry := { NvmKvCacheEntry.zero with index := cacheSlot bits key probe }
            contextState := .cacheEntryEmpty
            expired := false })
  | full {oldest : Nat} (passes : (cachePaths bits).Passes table.owners key mCollisionLimit)
      (chosen : evictionBegin table
        ((List.range mCollisionLimit).map (cacheSlot bits key)) = some oldest) :
      CacheLookup bits table key checksExpiry curTime
        (false,
          { contextEntry := table oldest
            contextState := .cacheEntryDelete
            expired := false })

/-- At an empty slot the lookup stays until its loop ends. -/
theorem kvCacheGetLoop_at_hole {key : List UInt8} {poolId : UInt32} {checksExpiry : Bool}
    {curTime init hashVal : Nat} (empty : (table hashVal).key = [])
    {context : NvmKvCacheContext} (noted : context.contextState = .cacheEntryEmpty)
    {eviction : List Nat} (fuel hashItr : Nat) :
    kvCacheGetLoop bits table key poolId checksExpiry curTime init fuel hashItr hashVal context
      eviction = (false, context) := by
  induction fuel generalizing hashItr with
  | zero => simp [kvCacheGetLoop, noted]
  | succ fuel inductionHypothesis =>
    rw [kvCacheGetLoop]
    simp only [empty, ne_eq, not_true_eq_false, if_false, noted, reduceCtorEq]
    exact inductionHypothesis (hashItr + 1)

/-- One more slot of another key is passed. -/
theorem Passes.succ {reach : Nat} (passes : (cachePaths bits).Passes table.owners key reach)
    (filled : (table (cacheSlot bits key reach)).key ≠ [])
    (other : ¬ kvCacheEntryCompare (table (cacheSlot bits key reach)) key.1 key.2 = true) :
    (cachePaths bits).Passes table.owners key (reach + 1) := by
  intro probe below
  rcases Nat.lt_succ_iff_lt_or_eq.mp below with earlier | same
  · exact passes probe earlier
  · subst same
    cases owned : (table (cacheSlot bits key probe)).owner with
    | none => exact absurd (NvmKvCacheEntry.owner_eq_none.mp owned) filled
    | some holder =>
      refine ⟨holder, owned, ?_⟩
      intro same
      subst same
      exact other ((kvCacheEntryCompare_iff filled).mpr owned)

/-- The lookup loop, from the slots it has passed on. The induction is on the slots
that are left. -/
theorem kvCacheGetLoop_lookup (checksExpiry : Bool) (curTime fuel hashItr : Nat)
    (total : hashItr + fuel = mCollisionLimit)
    (passes : (cachePaths bits).Passes table.owners key hashItr) :
    CacheLookup bits table key checksExpiry curTime
      (kvCacheGetLoop bits table key.1 key.2 checksExpiry curTime
        ((cacheHashFunc bits).keyHash key.1 key.2 bits false) fuel hashItr
        (cacheSlot bits key hashItr) .zero ((List.range hashItr).map (cacheSlot bits key))) := by
  induction fuel generalizing hashItr with
  | zero =>
    rw [Nat.add_zero] at total
    subst total
    have some : (List.range mCollisionLimit).map (cacheSlot bits key) ≠ [] := by
      simp [mCollisionLimit]
    obtain ⟨oldest, chosen⟩ := evictionBegin_isSome table some
    rw [kvCacheGetLoop, chosen]
    exact .full passes chosen
  | succ fuel inductionHypothesis =>
    rw [kvCacheGetLoop]
    dsimp only
    split
    · rename_i filled
      split
      · rename_i same
        exact .found ⟨by change hashItr < mCollisionLimit; omega, passes,
          (kvCacheEntryCompare_iff filled).mp same⟩
      · rename_i other
        have further := inductionHypothesis (hashItr + 1) (by omega)
          (Passes.succ passes filled other)
        rw [List.range_succ, List.map_append] at further
        exact further
    · rename_i empty
      have cleared : (table (cacheSlot bits key hashItr)).key = [] := not_not.mp empty
      rw [kvCacheGetLoop_at_hole cleared]
      · exact .hole (by omega) passes (NvmKvCacheEntry.owner_eq_none.mpr cleared)
      · rfl

/-- What a lookup gives back. -/
theorem kvCacheGet_lookup (bits : Nat) (table : NvmKvCacheTable) (key : CacheKey)
    (checksExpiry : Bool) (time : Nat) :
    CacheLookup bits table key checksExpiry (time % 2 ^ 32)
      (kvCacheGet bits table key.1 key.2 checksExpiry time) :=
  kvCacheGetLoop_lookup checksExpiry (time % 2 ^ 32) mCollisionLimit 0 (Nat.zero_add _)
    (fun _ below => absurd below (Nat.not_lt_zero _))

/-- A lookup succeeds exactly when it comes to the key. -/
theorem kvCacheGet_succeeds_iff (checksExpiry : Bool) (time : Nat) :
    (kvCacheGet bits table key.1 key.2 checksExpiry time).1 = true ↔
      ∃ probe, (cachePaths bits).Finds table.owners key probe := by
  have looked := kvCacheGet_lookup bits table key checksExpiry time
  generalize kvCacheGet bits table key.1 key.2 checksExpiry time = result at looked
  cases looked with
  | found finds => exact ⟨fun _ => ⟨_, finds⟩, fun _ => rfl⟩
  | hole within passes empty =>
    constructor
    · intro returned
      cases returned
    · rintro ⟨probe, finds⟩
      exact absurd finds (passes.not_finds_of_hole empty probe)
  | full passes chosen =>
    constructor
    · intro returned
      cases returned
    · rintro ⟨probe, finds⟩
      exact absurd finds (ProbePaths.Passes.not_finds passes probe)

/-- What an insertion changes, by what the lookup before it met. -/
inductive CacheInsertion (bits : Nat) (table : NvmKvCacheTable) (key : CacheKey)
    (valueLen absExpiry genCount lba time : Nat) : NvmKvCacheTable → Prop
  | renewed {probe : Nat} (finds : (cachePaths bits).Finds table.owners key probe) :
      CacheInsertion bits table key valueLen absExpiry genCount lba time
        (Function.update table (cacheSlot bits key probe)
          { table (cacheSlot bits key probe) with valueLen := valueLen, ts := time })
  | filled {probe : Nat} (within : probe < mCollisionLimit)
      (passes : (cachePaths bits).Passes table.owners key probe)
      (empty : table.owners (cacheSlot bits key probe) = none) :
      CacheInsertion bits table key valueLen absExpiry genCount lba time
        (Function.update table (cacheSlot bits key probe)
          (kvCacheEntrySet (table (cacheSlot bits key probe)) key.1 key.2 valueLen absExpiry
            genCount lba time))
  | evicted {probe : Nat} (within : probe < mCollisionLimit)
      (passes : (cachePaths bits).Passes table.owners key mCollisionLimit)
      (oldest : ∀ other < mCollisionLimit,
        (table (cacheSlot bits key probe)).ts ≤ (table (cacheSlot bits key other)).ts) :
      CacheInsertion bits table key valueLen absExpiry genCount lba time
        (Function.update table (cacheSlot bits key probe)
          (kvCacheEntrySet (table (cacheSlot bits key probe)) key.1 key.2 valueLen absExpiry
            genCount lba time))

/-- The context of a lookup made right before is never stale: the insertion takes the
slot that the lookup ended with. -/
theorem kvCachePut_insertion (bits : Nat) (key : CacheKey) (indexed : table.Indexed)
    (checksExpiry : Bool)
    (getTime valueLen absExpiry genCount lba time : Nat) :
    CacheInsertion bits table key valueLen absExpiry genCount lba time
      (kvCachePut bits table key.1 key.2 valueLen absExpiry genCount lba time
        (kvCacheGet bits table key.1 key.2 checksExpiry getTime).2) := by
  have looked := kvCacheGet_lookup bits table key checksExpiry getTime
  generalize kvCacheGet bits table key.1 key.2 checksExpiry getTime = result at looked
  cases looked with
  | @found probe finds =>
    have owned : (table (cacheSlot bits key probe)).owner = some key := finds.own
    have same := (kvCacheEntryCompare_iff (NvmKvCacheEntry.owner_eq_some.mp owned).1).mpr owned
    have renewed := @CacheInsertion.renewed _ _ _ valueLen absExpiry genCount lba time _ finds
    simp only [indexed (cacheSlot bits key probe)] at renewed
    simp only [kvCachePut, indexed (cacheSlot bits key probe), same, and_self, if_true]
    exact renewed
  | @hole probe within passes empty =>
    have cleared : (table (cacheSlot bits key probe)).key = [] :=
      NvmKvCacheEntry.owner_eq_none.mp empty
    simp only [kvCachePut, cleared, reduceCtorEq, false_and, if_false, and_self, if_true]
    exact .filled within passes empty
  | @full oldest passes chosen =>
    obtain ⟨member, least⟩ := evictionBegin_oldest chosen
    obtain ⟨probe, within, atOldest⟩ := List.mem_map.mp member
    subst atOldest
    simp only [kvCachePut, indexed (cacheSlot bits key probe), kvCacheEntryCompare, reduceCtorEq,
      false_and, if_false, and_self, decide_true, if_true]
    refine .evicted (List.mem_range.mp within) passes ?_
    intro other below
    exact least _ (List.mem_map_of_mem (List.mem_range.mpr below))

/-- An insertion writes one entry on the path of the key, around its index. -/
theorem CacheInsertion.writes_one {valueLen absExpiry genCount lba time : Nat}
    {after : NvmKvCacheTable}
    (inserted : CacheInsertion bits table key valueLen absExpiry genCount lba time after) :
    ∃ probe < mCollisionLimit, ∃ entry : NvmKvCacheEntry,
      entry.index = (table (cacheSlot bits key probe)).index ∧
        after = Function.update table (cacheSlot bits key probe) entry := by
  cases inserted with
  | @renewed probe finds =>
    refine ⟨probe, finds.within, _, ?_, rfl⟩
    rfl
  | @filled probe within passes empty =>
    refine ⟨probe, within, _, ?_, rfl⟩
    rfl
  | @evicted probe within passes oldest =>
    refine ⟨probe, within, _, ?_, rfl⟩
    rfl

end Nvmkv
