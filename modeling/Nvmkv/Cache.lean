import Mathlib.Logic.Function.Basic
import Nvmkv.HashFunc

/-!
# The collision cache

`kv_cache.cpp`: a table that remembers at which address a key is stored. Three
operations walk along the eight probe slots of a key in the table; they differ
in what stops them and in what they do at an empty slot, so each keeps its own
loop. Looking a key up also prepares the context of a later insertion: the entry
found, the first empty slot, or the oldest entry met.

An empty entry is one with an empty key. A table slot is a number and stands for
the pointer the code keeps in its hash table.
-/

namespace Nvmkv

/-- Slots tried for a key in the table (`M_COLLISION_LIMIT`). -/
def mCollisionLimit : Nat := 8

/-- The bytes of one entry and of the pointer to it. -/
def cacheEntryFootprint : Nat := 184

/-- An entry of the cache, with its index in the table and the time of its last use. -/
structure NvmKvCacheEntry where
  key : List UInt8
  valueLen : Nat
  poolId : UInt32
  expiry : Nat
  genCount : Nat
  index : Nat
  lba : Nat
  ts : Nat
  deriving DecidableEq

/-- The entry of zeroed memory. -/
def NvmKvCacheEntry.zero : NvmKvCacheEntry := ⟨[], 0, 0, 0, 0, 0, 0, 0⟩

/-- What a look-up in the cache has come to. -/
inductive NvmKvEntryState where
  | cacheEntryNotFound
  | cacheEntryEmpty
  | cacheEntryFound
  | cacheEntryDelete
  deriving DecidableEq

/-- What a lookup hands to a later insertion (`nvm_kv_cache_context`). -/
structure NvmKvCacheContext where
  contextEntry : NvmKvCacheEntry
  contextState : NvmKvEntryState
  expired : Bool
  deriving DecidableEq

/-- The context of zeroed memory. -/
def NvmKvCacheContext.zero : NvmKvCacheContext := ⟨.zero, .cacheEntryNotFound, false⟩

/-- The entries of the hash table by slot. -/
abbrev NvmKvCacheTable := Nat → NvmKvCacheEntry

/-- The table of a new cache: empty entries that know their slots. -/
def NvmKvCacheTable.initial : NvmKvCacheTable := fun slot =>
  { NvmKvCacheEntry.zero with index := slot }

/-- The address bits of a table of the given size in bytes. -/
def cacheAddrBits (cacheSize : Nat) : Nat := Nat.log2 (cacheSize / cacheEntryFootprint)

/-- The hash function over the indices of the table. -/
def cacheHashFunc (bits : Nat) : NvmKvHashFunc := ⟨bits, 0⟩

/-- Whether an entry is that of a key of a pool (`kv_cache_entry_compare`). -/
def kvCacheEntryCompare (entry : NvmKvCacheEntry) (key : List UInt8) (poolId : UInt32) : Bool :=
  entry.key = key ∧ entry.poolId = poolId

/-- Fill an entry. It keeps its index. -/
def kvCacheEntrySet (entry : NvmKvCacheEntry) (key : List UInt8) (poolId : UInt32)
    (valueLen absExpiry genCount lba ts : Nat) : NvmKvCacheEntry :=
  { key := key
    valueLen := valueLen
    poolId := poolId
    expiry := absExpiry
    genCount := genCount
    index := entry.index
    lba := lba
    ts := ts }

/-- The first slot of an eviction map: among the collected slots, in the order
in which they were inserted, the first one with the smallest timestamp. -/
def evictionBegin (table : NvmKvCacheTable) : List Nat → Option Nat
  | [] => none
  | slot :: rest =>
      match evictionBegin table rest with
      | some oldest => if (table oldest).ts < (table slot).ts then some oldest else some slot
      | none => some slot

/-- The lookup loop from the slot `hashVal` on, with `fuel` slots left. At an
empty slot the code stays where it is for the rest of the loop. -/
def kvCacheGetLoop (bits : Nat) (table : NvmKvCacheTable) (key : List UInt8) (poolId : UInt32)
    (checksExpiry : Bool) (curTime init : Nat) :
    (fuel hashItr hashVal : Nat) → NvmKvCacheContext → List Nat → Bool × NvmKvCacheContext
  | 0, _, _, context, eviction =>
      if context.contextState = .cacheEntryNotFound then
        match evictionBegin table eviction with
        | some slot => (false, { context with
            contextEntry := table slot, contextState := .cacheEntryDelete })
        | none => (false, context)
      else
        (false, context)
  | fuel + 1, hashItr, hashVal, context, eviction =>
      let entry := table hashVal
      if entry.key ≠ [] then
        if kvCacheEntryCompare entry key poolId then
          (true,
            { contextEntry := entry
              contextState := .cacheEntryFound
              expired := checksExpiry ∧ entry.expiry ≠ 0 ∧ entry.expiry < curTime })
        else
          kvCacheGetLoop bits table key poolId checksExpiry curTime init fuel (hashItr + 1)
            ((cacheHashFunc bits).resolveColl key init hashItr bits false) context
            (eviction ++ [hashVal])
      else
        let context :=
          if context.contextState = .cacheEntryNotFound then
            { context with
              contextEntry := { context.contextEntry with index := hashVal }
              contextState := .cacheEntryEmpty }
          else context
        kvCacheGetLoop bits table key poolId checksExpiry curTime init fuel (hashItr + 1) hashVal
          context eviction

/-- Look a key up: whether it was found, and the context. -/
def kvCacheGet (bits : Nat) (table : NvmKvCacheTable) (key : List UInt8) (poolId : UInt32)
    (checksExpiry : Bool) (time : Nat) : Bool × NvmKvCacheContext :=
  let hashVal := (cacheHashFunc bits).keyHash key poolId bits false
  kvCacheGetLoop bits table key poolId checksExpiry (time % 2 ^ 32) hashVal mCollisionLimit 0
    hashVal .zero []

/-- The search of an insertion for the key's own slot, an empty slot or, after
eight others, the oldest of them. The flag tells that the slot is evicted. -/
def kvCachePutLoop (bits : Nat) (table : NvmKvCacheTable) (key : List UInt8) (poolId : UInt32)
    (init : Nat) : (fuel hashItr hashVal : Nat) → List Nat → Nat × Bool
  | 0, _, hashVal, eviction =>
      match evictionBegin table eviction with
      | some slot => (slot, true)
      | none => (hashVal, false)
  | fuel + 1, hashItr, hashVal, eviction =>
      let entry := table hashVal
      if entry.key ≠ [] then
        if kvCacheEntryCompare entry key poolId then
          (hashVal, false)
        else
          kvCachePutLoop bits table key poolId init fuel (hashItr + 1)
            ((cacheHashFunc bits).resolveColl key init hashItr bits false) (eviction ++ [hashVal])
      else
        (hashVal, false)

/-- Insert or replace a key. The slot of the context is taken when it is still
what the lookup saw; a found entry then keeps everything but its value length
and timestamp. Otherwise the probe slots are searched. -/
def kvCachePut (bits : Nat) (table : NvmKvCacheTable) (key : List UInt8) (poolId : UInt32)
    (valueLen absExpiry genCount lba time : Nat) (context : NvmKvCacheContext) :
    NvmKvCacheTable :=
  let slot := context.contextEntry.index
  let entry := table slot
  let filled (old : NvmKvCacheEntry) :=
    kvCacheEntrySet old key poolId valueLen absExpiry genCount lba time
  if context.contextState = .cacheEntryFound ∧ kvCacheEntryCompare entry key poolId then
    Function.update table slot { entry with valueLen := valueLen, ts := time }
  else if context.contextState = .cacheEntryEmpty ∧ entry.key = [] then
    Function.update table slot (filled entry)
  else if context.contextState = .cacheEntryDelete ∧
      kvCacheEntryCompare entry context.contextEntry.key context.contextEntry.poolId then
    Function.update table slot (filled entry)
  else
    let hashVal := (cacheHashFunc bits).keyHash key poolId bits false
    let (target, evicted) :=
      kvCachePutLoop bits table key poolId hashVal mCollisionLimit 0 hashVal []
    let old := if evicted then { NvmKvCacheEntry.zero with index := (table target).index }
      else table target
    Function.update table target (filled old)

/-- The search of a deletion. It compares at every probe slot. -/
def kvCacheDeleteLoop (bits : Nat) (table : NvmKvCacheTable) (key : List UInt8) (poolId : UInt32)
    (init : Nat) : (fuel hashItr hashVal : Nat) → Option Nat
  | 0, _, _ => none
  | fuel + 1, hashItr, hashVal =>
      if kvCacheEntryCompare (table hashVal) key poolId then
        some hashVal
      else
        kvCacheDeleteLoop bits table key poolId init fuel (hashItr + 1)
          ((cacheHashFunc bits).resolveColl key init hashItr bits false)

/-- Delete a key: the deleted entry, if there was one, and the table after it. -/
def kvCacheDelete (bits : Nat) (table : NvmKvCacheTable) (key : List UInt8) (poolId : UInt32) :
    Option NvmKvCacheEntry × NvmKvCacheTable :=
  let hashVal := (cacheHashFunc bits).keyHash key poolId bits false
  match kvCacheDeleteLoop bits table key poolId hashVal mCollisionLimit 0 hashVal with
  | some slot =>
      (some (table slot), Function.update table slot
        { NvmKvCacheEntry.zero with index := (table slot).index })
  | none => (none, table)

/-- One insertion of a batch. -/
structure NvmKvCachePut where
  key : List UInt8
  poolId : UInt32
  valueLen : Nat
  absExpiry : Nat
  genCount : Nat
  lba : Nat
  context : NvmKvCacheContext

/-- The insertions of a batch, which are made under one lock. -/
def kvCachePuts (bits : Nat) (table : NvmKvCacheTable) (time : Nat) (puts : List NvmKvCachePut) :
    NvmKvCacheTable :=
  puts.foldl (fun table put => kvCachePut bits table put.key put.poolId put.valueLen put.absExpiry
    put.genCount put.lba time put.context) table

/-- Empty the entries of the addresses given. -/
def kvCacheDeleteLbas (totalEntries : Nat) (table : NvmKvCacheTable) (lbaList : List Nat) :
    NvmKvCacheTable := fun slot =>
  let entry := table slot
  if slot < totalEntries ∧ entry.key ≠ [] ∧ entry.lba ∈ lbaList then
    { NvmKvCacheEntry.zero with index := slot }
  else entry

/-- A found key has the state of a found entry, and its context holds an entry of
the table for the key. Induction follows the loop. -/
theorem kvCacheGetLoop_found {bits : Nat} {table : NvmKvCacheTable} {key : List UInt8}
    {poolId : UInt32} {checksExpiry : Bool} {curTime init : Nat} :
    ∀ {fuel hashItr hashVal : Nat} {context found : NvmKvCacheContext} {eviction : List Nat},
      kvCacheGetLoop bits table key poolId checksExpiry curTime init fuel hashItr hashVal context
        eviction = (true, found) →
      found.contextState = .cacheEntryFound ∧ (∃ slot, found.contextEntry = table slot) ∧
        found.contextEntry.key = key ∧ found.contextEntry.poolId = poolId := by
  intro fuel
  induction fuel with
  | zero =>
    intro hashItr hashVal context found eviction returned
    rw [kvCacheGetLoop] at returned
    split at returned
    · split at returned <;> simp at returned
    · simp at returned
  | succ fuel inductionHypothesis =>
    intro hashItr hashVal context found eviction returned
    rw [kvCacheGetLoop] at returned
    simp only at returned
    split at returned
    · split at returned
      · rename_i same
        simp only [Prod.mk.injEq, true_and] at returned
        subst returned
        simp only [kvCacheEntryCompare, decide_eq_true_eq] at same
        exact ⟨rfl, ⟨hashVal, rfl⟩, same.1, same.2⟩
      · exact inductionHypothesis returned
    · exact inductionHypothesis returned

/-- A look-up that succeeds has found an entry of the table with the key and the pool. -/
theorem kvCacheGet_found {bits : Nat} {table : NvmKvCacheTable} {key : List UInt8}
    {poolId : UInt32} {checksExpiry : Bool} {time : Nat} {found : NvmKvCacheContext}
    (returned : kvCacheGet bits table key poolId checksExpiry time = (true, found)) :
    found.contextState = .cacheEntryFound ∧ (∃ slot, found.contextEntry = table slot) ∧
      found.contextEntry.key = key ∧ found.contextEntry.poolId = poolId :=
  kvCacheGetLoop_found returned

/-- An insertion changes one entry: to one of the key, either the filled one or, when
the key had it before, that one with a new length and timestamp. -/
theorem kvCachePut_entry (bits : Nat) (table : NvmKvCacheTable) (key : List UInt8)
    (poolId : UInt32) (valueLen absExpiry genCount lba time : Nat)
    (context : NvmKvCacheContext) :
    ∃ slot entry,
      kvCachePut bits table key poolId valueLen absExpiry genCount lba time context =
        Function.update table slot entry ∧
      entry.key = key ∧ entry.poolId = poolId ∧ entry.valueLen = valueLen ∧
      (entry.lba = lba ∨ entry.lba = (table slot).lba ∧ (table slot).key = key ∧
        (table slot).poolId = poolId) := by
  unfold kvCachePut
  simp only
  split
  · rename_i found
    have same := found.2
    simp only [kvCacheEntryCompare, decide_eq_true_eq] at same
    exact ⟨_, _, rfl, same.1, same.2, rfl, .inr ⟨rfl, same⟩⟩
  · split
    · exact ⟨_, _, rfl, rfl, rfl, rfl, .inl rfl⟩
    · split
      · exact ⟨_, _, rfl, rfl, rfl, rfl, .inl rfl⟩
      · exact ⟨_, _, rfl, rfl, rfl, rfl, .inl rfl⟩

/-- A deletion leaves an entry as it is or empties it. -/
theorem kvCacheDelete_entry (bits : Nat) (table : NvmKvCacheTable) (key : List UInt8)
    (poolId : UInt32) (other : Nat) :
    (kvCacheDelete bits table key poolId).2 other = table other ∨
      ((kvCacheDelete bits table key poolId).2 other).key = [] := by
  unfold kvCacheDelete
  dsimp only
  split
  · rename_i slot _
    by_cases here : other = slot
    · subst here
      refine Or.inr ?_
      simp only [Function.update_self]
      rfl
    · exact Or.inl (Function.update_of_ne here _ _)
  · exact Or.inl rfl

end Nvmkv
