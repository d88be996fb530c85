import Mathlib.Data.List.Induction
import Nvmkv.CacheProbing

/-!
# The collision cache over a run

A run of the cache is any sequence of insertions, lookups and deletions in which every
insertion uses the context of a lookup of its key made right before. Over such runs the
table would be a partial map, if deletions left no holes: a lookup goes no further than
the first empty slot, so a deletion that empties a slot on the way to another key loses
that key, and the next insertion of it makes a second entry. The run theorem names
exactly these deletions.

Next to it stand the effects of one insertion: what the next lookup sees of it, and
which entry it replaces.
-/

namespace Nvmkv

variable {bits : Nat} {table : NvmKvCacheTable} {key : CacheKey}

/-- The search of a deletion ends at the first slot with the key, or has seen that no
slot of the path has it. -/
theorem kvCacheDeleteLoop_ends (bits : Nat) (table : NvmKvCacheTable) (nonempty : key.1 ≠ [])
    (fuel hashItr : Nat)
    (total : hashItr + fuel = mCollisionLimit)
    (missed : ∀ probe < hashItr, table.owners (cacheSlot bits key probe) ≠ some key) :
    match kvCacheDeleteLoop bits table key.1 key.2
        ((cacheHashFunc bits).keyHash key.1 key.2 bits false) fuel hashItr
        (cacheSlot bits key hashItr) with
    | some slot => ∃ probe < mCollisionLimit, slot = cacheSlot bits key probe ∧
        table.owners slot = some key
    | none => ∀ probe < mCollisionLimit, table.owners (cacheSlot bits key probe) ≠ some key := by
  induction fuel generalizing hashItr with
  | zero =>
    rw [Nat.add_zero] at total
    subst total
    exact missed
  | succ fuel inductionHypothesis =>
    rw [kvCacheDeleteLoop]
    by_cases same : kvCacheEntryCompare (table (cacheSlot bits key hashItr)) key.1 key.2 = true
    · rw [if_pos same]
      have filled : (table (cacheSlot bits key hashItr)).key ≠ [] := by
        simp only [kvCacheEntryCompare, decide_eq_true_eq] at same
        rw [same.1]
        exact nonempty
      exact ⟨hashItr, by omega, rfl, (kvCacheEntryCompare_iff filled).mp same⟩
    · rw [if_neg same]
      apply inductionHypothesis (hashItr + 1) (by omega)
      intro probe below
      rcases Nat.lt_succ_iff_lt_or_eq.mp below with earlier | equal
      · exact missed probe earlier
      · subst equal
        intro owned
        have filled := (NvmKvCacheEntry.owner_eq_some.mp owned).1
        exact same ((kvCacheEntryCompare_iff filled).mpr owned)

/-- A deletion empties one slot of the path that has the key, or there is none. -/
theorem kvCacheDelete_cases (bits : Nat) (table : NvmKvCacheTable) (nonempty : key.1 ≠ []) :
    (∃ slot, table.owners slot = some key ∧
        (kvCacheDelete bits table key.1 key.2).2 = Function.update table slot
          { NvmKvCacheEntry.zero with index := (table slot).index }) ∨
      (∀ probe < mCollisionLimit, table.owners (cacheSlot bits key probe) ≠ some key) ∧
        (kvCacheDelete bits table key.1 key.2).2 = table := by
  have ends := kvCacheDeleteLoop_ends bits table nonempty mCollisionLimit 0
    (Nat.zero_add _) (fun _ below => absurd below (Nat.not_lt_zero _))
  rw [kvCacheDelete]
  dsimp only
  change match kvCacheDeleteLoop bits table key.1 key.2
      ((cacheHashFunc bits).keyHash key.1 key.2 bits false) mCollisionLimit 0
      ((cacheHashFunc bits).keyHash key.1 key.2 bits false) with
    | some slot => _
    | none => _ at ends
  cases searched : kvCacheDeleteLoop bits table key.1 key.2
      ((cacheHashFunc bits).keyHash key.1 key.2 bits false) mCollisionLimit 0
      ((cacheHashFunc bits).keyHash key.1 key.2 bits false) with
  | some slot =>
    rw [searched] at ends
    obtain ⟨probe, within, rfl, owned⟩ := ends
    exact .inl ⟨_, owned, rfl⟩
  | none =>
    rw [searched] at ends
    exact .inr ⟨ends, rfl⟩

/-- A call of the cache. An insertion comes with the lookup that gave its context. Keys
are not empty: the store refuses others. -/
inductive CacheCall where
  | put (key : CacheKey) (nonempty : key.1 ≠ []) (checksExpiry : Bool) (getTime : Nat)
      (valueLen absExpiry genCount lba putTime : Nat)
  | get (key : CacheKey) (nonempty : key.1 ≠ []) (checksExpiry : Bool) (time : Nat)
  | delete (key : CacheKey) (nonempty : key.1 ≠ [])

/-- The table after a call. -/
def CacheCall.apply (bits : Nat) (table : NvmKvCacheTable) : CacheCall → NvmKvCacheTable
  | .put key _ checksExpiry getTime valueLen absExpiry genCount lba putTime =>
      kvCachePut bits table key.1 key.2 valueLen absExpiry genCount lba putTime
        (kvCacheGet bits table key.1 key.2 checksExpiry getTime).2
  | .get _ _ _ _ => table
  | .delete key _ => (kvCacheDelete bits table key.1 key.2).2

/-- The table after a run of calls on a new cache. -/
def cacheAfter (bits : Nat) (calls : List CacheCall) : NvmKvCacheTable :=
  calls.foldl (CacheCall.apply bits) .initial

/-- A call leaves every entry knowing its slot. -/
theorem CacheCall.indexed (indexed : table.Indexed) (call : CacheCall) :
    (call.apply bits table).Indexed := by
  cases call with
  | put key nonempty checksExpiry getTime valueLen absExpiry genCount lba putTime =>
    have inserted := kvCachePut_insertion bits key indexed checksExpiry getTime
      valueLen absExpiry genCount lba putTime
    obtain ⟨probe, -, entry, kept, written⟩ := inserted.writes_one
    rw [CacheCall.apply, written]
    exact indexed.update kept
  | get key nonempty checksExpiry time => exact indexed
  | delete key nonempty =>
    rw [CacheCall.apply]
    rcases kvCacheDelete_cases bits table nonempty with
      ⟨emptied, -, removed⟩ | ⟨-, unchanged⟩
    · rw [removed]
      exact indexed.update rfl
    · rw [unchanged]
      exact indexed

/-- The entries keep their indices through every run. Induction follows the calls. -/
theorem cacheAfter_indexed (bits : Nat) (calls : List CacheCall) :
    (cacheAfter bits calls).Indexed := by
  induction calls using List.reverseRecOn with
  | nil => exact NvmKvCacheTable.Indexed.initial
  | append_singleton calls call inductionHypothesis =>
    rw [cacheAfter, List.foldl_append]
    exact call.indexed inductionHypothesis

/-- A put of a one-byte key of the default pool at address `lba`. -/
def putByteKey (byte : UInt8) (lba : Nat) : CacheCall :=
  .put ([byte], 0) (List.cons_ne_nil _ _) false 0 16 0 0 lba 0

/-- A renewed entry belongs to the key that it belonged to. -/
theorem NvmKvCacheTable.owners_renewed (slot valueLen ts : Nat) :
    NvmKvCacheTable.owners
        (Function.update table slot { table slot with valueLen := valueLen, ts := ts }) =
      table.owners := by
  rw [NvmKvCacheTable.owners_update]
  exact Function.update_eq_self _ _

/-- A filled entry belongs to the key given. -/
theorem NvmKvCacheEntry.owner_set (entry : NvmKvCacheEntry) (nonempty : key.1 ≠ [])
    (valueLen absExpiry genCount lba ts : Nat) :
    (kvCacheEntrySet entry key.1 key.2 valueLen absExpiry genCount lba ts).owner = some key :=
  NvmKvCacheEntry.owner_eq_some.mpr ⟨nonempty, rfl, rfl⟩

/-- A lookup delivers the entry that it finds. -/
theorem kvCacheGet_delivers {probe : Nat} (finds : (cachePaths bits).Finds table.owners key probe)
    (checksExpiry : Bool) (time : Nat) :
    kvCacheGet bits table key.1 key.2 checksExpiry time =
      (true,
        { contextEntry := table (cacheSlot bits key probe)
          contextState := .cacheEntryFound
          expired := checksExpiry ∧ (table (cacheSlot bits key probe)).expiry ≠ 0 ∧
            (table (cacheSlot bits key probe)).expiry < time % 2 ^ 32 }) := by
  have succeeds := (kvCacheGet_succeeds_iff checksExpiry time).mpr ⟨probe, finds⟩
  have looked := kvCacheGet_lookup bits table key checksExpiry time
  generalize kvCacheGet bits table key.1 key.2 checksExpiry time = result at looked succeeds
  cases looked with
  | found other =>
    rw [finds.unique other]
  | hole within passes empty => cases succeeds
  | full passes chosen => cases succeeds

/-- A lookup delivers the four fields given, and whether their expiry has passed. -/
def DeliversFields (bits : Nat) (table : NvmKvCacheTable) (key : CacheKey)
    (checksExpiry : Bool) (time valueLen absExpiry genCount lba : Nat) : Prop :=
  ∃ context, kvCacheGet bits table key.1 key.2 checksExpiry time = (true, context) ∧
    context.contextEntry.valueLen = valueLen ∧ context.contextEntry.expiry = absExpiry ∧
    context.contextEntry.genCount = genCount ∧ context.contextEntry.lba = lba ∧
    (context.expired = true ↔ checksExpiry = true ∧ absExpiry ≠ 0 ∧ absExpiry < time % 2 ^ 32)

/-- An entry found with the four fields is delivered with them. -/
theorem deliversFields_of_finds {probe : Nat}
    (finds : (cachePaths bits).Finds table.owners key probe) {checksExpiry : Bool}
    {time valueLen absExpiry genCount lba : Nat}
    (length : (table (cacheSlot bits key probe)).valueLen = valueLen)
    (expiry : (table (cacheSlot bits key probe)).expiry = absExpiry)
    (generation : (table (cacheSlot bits key probe)).genCount = genCount)
    (address : (table (cacheSlot bits key probe)).lba = lba) :
    DeliversFields bits table key checksExpiry time valueLen absExpiry genCount lba := by
  refine ⟨_, kvCacheGet_delivers finds checksExpiry time, length, expiry, generation, address, ?_⟩
  simp [expiry]

/-- What a lookup finds it delivers with these fields only. -/
theorem DeliversFields.fields {probe : Nat}
    (finds : (cachePaths bits).Finds table.owners key probe) {checksExpiry : Bool}
    {time valueLen absExpiry genCount lba : Nat}
    (delivers : DeliversFields bits table key checksExpiry time valueLen absExpiry genCount lba) :
    (table (cacheSlot bits key probe)).expiry = absExpiry ∧
      (table (cacheSlot bits key probe)).genCount = genCount ∧
      (table (cacheSlot bits key probe)).lba = lba := by
  obtain ⟨context, returned, -, expiry, generation, address, -⟩ := delivers
  rw [kvCacheGet_delivers finds] at returned
  cases returned
  exact ⟨expiry, generation, address⟩

/-- A filled entry of a slot that the lookup of its key comes to first is delivered. -/
theorem deliversFields_of_filled (nonempty : key.1 ≠ []) {probe : Nat}
    (within : probe < mCollisionLimit)
    (passes : (cachePaths bits).Passes table.owners key probe)
    (reached : ∀ before < probe, cacheSlot bits key before ≠ cacheSlot bits key probe)
    {checksExpiry : Bool} {time valueLen absExpiry genCount lba putTime : Nat} :
    DeliversFields bits
      (Function.update table (cacheSlot bits key probe)
        (kvCacheEntrySet (table (cacheSlot bits key probe)) key.1 key.2 valueLen absExpiry genCount
          lba putTime))
      key checksExpiry time valueLen absExpiry genCount lba := by
  have finds : (cachePaths bits).Finds
      (NvmKvCacheTable.owners (Function.update table (cacheSlot bits key probe)
        (kvCacheEntrySet (table (cacheSlot bits key probe)) key.1 key.2 valueLen absExpiry genCount
          lba putTime))) key probe := by
    rw [NvmKvCacheTable.owners_update, NvmKvCacheEntry.owner_set _ nonempty]
    exact passes.finds_written within reached
  apply deliversFields_of_finds finds
  all_goals rw [Function.update_self]; rfl

/-- The next lookup sees a put exactly when the key was not found before, or was found
with the expiry, the generation count and the address that are put: of an entry that is
found, the insertion renews only the value length and the timestamp. -/
theorem put_delivered_iff (bits : Nat) (key : CacheKey) (indexed : table.Indexed)
    (nonempty : key.1 ≠ [])
    (checksExpiry : Bool) (getTime valueLen absExpiry genCount lba putTime time : Nat) :
    DeliversFields bits
        (kvCachePut bits table key.1 key.2 valueLen absExpiry genCount lba putTime
          (kvCacheGet bits table key.1 key.2 checksExpiry getTime).2)
        key checksExpiry time valueLen absExpiry genCount lba ↔
      ∀ probe, (cachePaths bits).Finds table.owners key probe →
        (table (cacheSlot bits key probe)).expiry = absExpiry ∧
          (table (cacheSlot bits key probe)).genCount = genCount ∧
          (table (cacheSlot bits key probe)).lba = lba := by
  have inserted := kvCachePut_insertion bits key indexed checksExpiry getTime
    valueLen absExpiry genCount lba putTime
  generalize kvCachePut bits table key.1 key.2 valueLen absExpiry genCount lba putTime
    (kvCacheGet bits table key.1 key.2 checksExpiry getTime).2 = after at inserted
  cases inserted with
  | @renewed probe finds =>
    have findsAfter := finds
    rw [← NvmKvCacheTable.owners_renewed (cacheSlot bits key probe) valueLen putTime] at findsAfter
    constructor
    · intro delivers other finds'
      have fields := delivers.fields findsAfter
      rw [Function.update_self] at fields
      rw [← finds.unique finds']
      exact fields
    · intro agree
      obtain ⟨expiry, generation, address⟩ := agree probe finds
      apply deliversFields_of_finds findsAfter <;> rw [Function.update_self]
      · exact expiry
      · exact generation
      · exact address
  | @filled probe within passes empty =>
    constructor
    · intro _ found finds
      exact absurd finds (passes.not_finds_of_hole empty found)
    · intro _
      exact deliversFields_of_filled nonempty within passes (passes.apart_of_hole empty)
  | @evicted probe within passes oldest =>
    constructor
    · intro _ found finds
      exact absurd finds (ProbePaths.Passes.not_finds passes found)
    · intro _
      obtain ⟨first, firstWithin, here, passesFirst, apart⟩ :=
        ProbePaths.Passes.first_visit passes within
      have same : cacheSlot bits key first = cacheSlot bits key probe := here
      rw [← same]
      exact deliversFields_of_filled nonempty firstWithin passesFirst apart

/-- A key that is new to a cache of two entries is delivered with its fields. -/
theorem new_key_delivered :
    DeliversFields 1
      (kvCachePut 1 .initial [2] 0 16 5 7 10 0 (kvCacheGet 1 .initial [2] 0 true 0).2)
      ([2], 0) true 3 16 5 7 10 := by
  refine (put_delivered_iff 1 ([2], 0) NvmKvCacheTable.Indexed.initial
    (List.cons_ne_nil _ _) true 0 16 5 7 10 0 3).mpr ?_
  intro probe finds
  cases finds.own

/-- The expiry of a key that is put again is not the one delivered. -/
theorem renewed_expiry_not_delivered :
    ¬ ∀ (bits : Nat) (table : NvmKvCacheTable) (key : CacheKey), table.Indexed → key.1 ≠ [] →
      ∀ checksExpiry getTime valueLen absExpiry genCount lba putTime time,
        DeliversFields bits
          (kvCachePut bits table key.1 key.2 valueLen absExpiry genCount lba putTime
            (kvCacheGet bits table key.1 key.2 checksExpiry getTime).2)
          key checksExpiry time valueLen absExpiry genCount lba := by
  intro promised
  obtain ⟨context, returned, -, expiry, -⟩ := promised 1 (cacheAfter 1 [putByteKey 2 10]) ([2], 0)
    (cacheAfter_indexed _ _) (List.cons_ne_nil _ _) true 0 16 5 0 10 1 2
  have unchanged : (kvCacheGet 1
      (kvCachePut 1 (cacheAfter 1 [putByteKey 2 10]) [2] 0 16 5 0 10 1
        (kvCacheGet 1 (cacheAfter 1 [putByteKey 2 10]) [2] 0 true 0).2)
      [2] 0 true 2).2.contextEntry.expiry = 0 := by decide +kernel
  rw [returned, expiry] at unchanged
  cases unchanged

/-- An insertion changes one slot of the key's path and no index. It takes the entry of
another key only when all the slots of the path hold other keys, and then an oldest of
these. -/
theorem put_replaces_oldest (bits : Nat) (key : CacheKey) (indexed : table.Indexed)
    (checksExpiry : Bool)
    (getTime valueLen absExpiry genCount lba putTime : Nat) :
    let after := kvCachePut bits table key.1 key.2 valueLen absExpiry genCount lba putTime
      (kvCacheGet bits table key.1 key.2 checksExpiry getTime).2
    (∃ probe < mCollisionLimit, ∀ slot ≠ cacheSlot bits key probe, after slot = table slot) ∧
      (∀ slot, (after slot).index = (table slot).index) ∧
      ∀ slot holder, (table slot).owner = some holder → holder ≠ key →
        after slot ≠ table slot →
          (cachePaths bits).Passes table.owners key mCollisionLimit ∧
            ∀ probe < mCollisionLimit, (table slot).ts ≤ (table (cacheSlot bits key probe)).ts := by
  have inserted := kvCachePut_insertion bits key indexed checksExpiry getTime
    valueLen absExpiry genCount lba putTime
  dsimp only
  generalize kvCachePut bits table key.1 key.2 valueLen absExpiry genCount lba putTime
    (kvCacheGet bits table key.1 key.2 checksExpiry getTime).2 = after at inserted ⊢
  refine ⟨?_, ?_, ?_⟩
  · obtain ⟨probe, within, entry, -, rfl⟩ := inserted.writes_one
    exact ⟨probe, within, fun slot apart => Function.update_of_ne apart _ _⟩
  · intro slot
    obtain ⟨probe, -, entry, kept, rfl⟩ := inserted.writes_one
    rw [indexed.update kept, indexed]
  · intro slot holder owned different changed
    cases inserted with
    | @renewed probe finds =>
      by_cases here : slot = cacheSlot bits key probe
      · subst here
        have own : (table (cacheSlot bits key probe)).owner = some key := finds.own
        rw [owned] at own
        exact absurd (Option.some.inj own) different
      · exact absurd (Function.update_of_ne here _ _) changed
    | @filled probe within passes empty =>
      by_cases here : slot = cacheSlot bits key probe
      · subst here
        have hole : (table (cacheSlot bits key probe)).owner = none := empty
        rw [owned] at hole
        cases hole
      · exact absurd (Function.update_of_ne here _ _) changed
    | @evicted probe within passes oldest =>
      by_cases here : slot = cacheSlot bits key probe
      · subst here
        exact ⟨passes, oldest⟩
      · exact absurd (Function.update_of_ne here _ _) changed

/-- A cache of one entry gives it to the next key. -/
theorem put_replaces_only_entry :
    let table := cacheAfter 0 [putByteKey 2 10]
    let after := kvCachePut 0 table [3] 0 16 5 7 20 1 (kvCacheGet 0 table [3] 0 true 0).2
    (∃ probe < mCollisionLimit, ∀ slot ≠ cacheSlot 0 ([3], 0) probe, after slot = table slot) ∧
      (∀ slot, (after slot).index = (table slot).index) ∧
      ∀ slot holder, (table slot).owner = some holder → holder ≠ ([3], 0) →
        after slot ≠ table slot →
          (cachePaths 0).Passes table.owners ([3], 0) mCollisionLimit ∧
            ∀ probe < mCollisionLimit,
              (table slot).ts ≤ (table (cacheSlot 0 ([3], 0) probe)).ts :=
  put_replaces_oldest 0 ([3], 0) (cacheAfter_indexed 0 [putByteKey 2 10]) true 0 16 5 7 20 1

/-- What the cache promises as a map from keys to entries. -/
structure CachePartialMap (bits : Nat) (table : NvmKvCacheTable) : Prop where
  once : ∀ slot other key, table.owners slot = some key → table.owners other = some key →
    slot = other
  found : ∀ key checksExpiry time,
    (kvCacheGet bits table key.1 key.2 checksExpiry time).1 = true ↔
      ∃ slot, table.owners slot = some key
  deleted : ∀ key : CacheKey, key.1 ≠ [] →
    ∀ slot, (kvCacheDelete bits table key.1 key.2).2.owners slot ≠ some key

/-- The table is a partial map when every key is where a lookup finds it, and only
then. -/
theorem cachePartialMap_iff :
    CachePartialMap bits table ↔ (cachePaths bits).WellPlaced table.owners := by
  constructor
  · intro partialMap slot key owned
    obtain ⟨probe, finds⟩ := (kvCacheGet_succeeds_iff false 0).mp
      ((partialMap.found key false 0).mpr ⟨slot, owned⟩)
    exact ⟨probe, partialMap.once _ _ key finds.own owned, finds⟩
  · intro placed
    refine ⟨fun _ _ _ => placed.unique, ?_, ?_⟩
    · intro key checksExpiry time
      exact (kvCacheGet_succeeds_iff checksExpiry time).trans placed.finds_iff
    · intro key nonempty slot owned
      rcases kvCacheDelete_cases bits table nonempty with
        ⟨emptied, had, removed⟩ | ⟨absent, unchanged⟩
      · rw [removed, NvmKvCacheTable.owners_update] at owned
        by_cases here : slot = emptied
        · subst here
          rw [Function.update_self] at owned
          cases owned
        · rw [Function.update_of_ne here] at owned
          exact here (placed.unique owned had)
      · rw [unchanged] at owned
        obtain ⟨probe, atSlot, finds⟩ := placed slot key owned
        exact absent probe finds.within finds.own

/-- A deletion takes no key away that another key's lookup passes. -/
def CacheCall.LeavesNoHole (bits : Nat) (table : NvmKvCacheTable) : CacheCall → Prop
  | .delete key _ => ∀ slot, table.owners slot = some key →
      (cachePaths bits).FrontsNone table.owners slot
  | _ => True

/-- A call keeps the keys where lookups find them exactly when it leaves no hole on the
way to one. -/
theorem CacheCall.wellPlaced_iff (indexed : table.Indexed)
    (placed : (cachePaths bits).WellPlaced table.owners) (call : CacheCall) :
    (cachePaths bits).WellPlaced (call.apply bits table).owners ↔ call.LeavesNoHole bits table := by
  cases call with
  | put key nonempty checksExpiry getTime valueLen absExpiry genCount lba putTime =>
    refine ⟨fun _ => trivial, fun _ => ?_⟩
    have inserted := kvCachePut_insertion bits key indexed checksExpiry getTime
      valueLen absExpiry genCount lba putTime
    rw [CacheCall.apply]
    generalize kvCachePut bits table key.1 key.2 valueLen absExpiry genCount lba putTime
      (kvCacheGet bits table key.1 key.2 checksExpiry getTime).2 = after at inserted ⊢
    cases inserted with
    | renewed finds =>
      rw [NvmKvCacheTable.owners_renewed]
      exact placed
    | filled within passes empty =>
      rw [NvmKvCacheTable.owners_update, NvmKvCacheEntry.owner_set _ nonempty]
      exact placed.fill within passes empty
    | evicted within passes oldest =>
      rw [NvmKvCacheTable.owners_update, NvmKvCacheEntry.owner_set _ nonempty]
      exact placed.replace within passes
  | get key nonempty checksExpiry time => exact ⟨fun _ => trivial, fun _ => placed⟩
  | delete key nonempty =>
    rw [CacheCall.apply]
    rcases kvCacheDelete_cases bits table nonempty with
      ⟨emptied, had, removed⟩ | ⟨absent, unchanged⟩
    · rw [removed, NvmKvCacheTable.owners_update]
      refine (placed.empty_iff emptied).trans ⟨?_, fun leaves => leaves emptied had⟩
      intro fronts slot owned
      rw [placed.unique owned had]
      exact fronts
    · rw [unchanged]
      refine ⟨fun _ slot owned => ?_, fun _ => placed⟩
      obtain ⟨probe, atSlot, finds⟩ := placed slot key owned
      exact absurd finds.own (absent probe finds.within)

/-- Throughout a run, for every cache size: the table is a partial map in every state
reached exactly when no deletion of the run leaves a hole on the way to another key. -/
theorem cachePartialMap_throughout_iff (cacheSize : Nat) (calls : List CacheCall) :
    (∀ before, before <+: calls →
        CachePartialMap (cacheAddrBits cacheSize) (cacheAfter (cacheAddrBits cacheSize) before)) ↔
      ∀ before call, before ++ [call] <+: calls →
        call.LeavesNoHole (cacheAddrBits cacheSize)
          (cacheAfter (cacheAddrBits cacheSize) before) := by
  constructor
  · intro throughout before call reached
    have now := cachePartialMap_iff.mp
      (throughout before ((List.prefix_append before [call]).trans reached))
    have next := cachePartialMap_iff.mp (throughout (before ++ [call]) reached)
    rw [cacheAfter, List.foldl_append] at next
    exact (CacheCall.wellPlaced_iff (cacheAfter_indexed _ before) now call).mp next
  · intro leaves before reached
    rw [cachePartialMap_iff]
    induction before using List.reverseRecOn with
    | nil =>
      intro slot key owned
      cases owned
    | append_singleton before call inductionHypothesis =>
      have now := inductionHypothesis ((List.prefix_append before [call]).trans reached)
      rw [cacheAfter, List.foldl_append]
      exact (CacheCall.wellPlaced_iff (cacheAfter_indexed _ before) now call).mpr
        (leaves before call reached)

/-- In a cache of two entries two keys have the same first slot. When the first of them
is deleted and the second is put again, the second key is there twice. -/
theorem key_cached_twice :
    ¬ ∀ cacheSize calls, CachePartialMap (cacheAddrBits cacheSize)
      (cacheAfter (cacheAddrBits cacheSize) calls) := by
  intro promised
  have twice := (promised 368 [putByteKey 2 10, putByteKey 3 20,
    .delete ([2], 0) (List.cons_ne_nil _ _), putByteKey 3 30]).once 0 1 ([3], 0)
      (by decide +kernel) (by decide +kernel)
  cases twice

end Nvmkv
