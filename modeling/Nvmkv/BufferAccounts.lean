import Mathlib.Data.List.Perm.Basic
import Mathlib.Logic.Relation
import Nvmkv.BufferPool

/-!
# Accounts of the buffers

The pool keeps its buffers in one vector and their sizes in another, and it does not know
how large a buffer is that comes back: the size travels with the clients. What the two
vectors and the clients have between them is a ledger of buffers with sizes. It has as many
entries as the pool was made with, no buffer twice, and the size of every entry is the size
of the allocation behind it.

Three things happen to the ledger. An entry goes from the pool to a client or back, which
reorders it. An entry that is too small is replaced by one of a new allocation. Or there is
no memory, and nothing changes. The allocator may give back any address that is not in use,
also one that was freed before, and it gives one for no bytes, too.
-/

namespace Nvmkv

/-- The allocations that are not freed, with their sizes. -/
abbrev BufferHeap := Nat → Option UInt32

/-- An answer of `posix_memalign` for each attempt, if there is memory: the address is not
in use. -/
structure Allocator where
  memalign : Nat → BufferHeap → UInt32 → Option Nat
  fresh : ∀ attempt heap size address, memalign attempt heap size = some address →
    heap address = none

/-- A buffer with its size, or with the size that a client was told. -/
abbrev BufferEntry := Option Nat × UInt32

/-- `M_MAX_BUFFERS`. -/
def mMaxBuffers : UInt32 := 4096

/-- The members of the pool. The vectors are lists with the last element first. -/
structure NvmKvBufferPool where
  buffers : List (Option Nat)
  bufferSizes : List UInt32
  numBuffers : UInt32
  bufferLimit : UInt32
  initialized : Bool

/-- How the initialisation of a pool fails. -/
inductive BufferPoolError where
  | maxLimitReached
  | outOfMemory
  deriving DecidableEq

/-- A size in the `int` in which `get_buf` keeps it, where it is compared and returned as an
unsigned number. -/
def sizeAsInt (size : UInt32) : UInt32 := size.toInt32.toUInt32

namespace NvmKvBufferPool

/-- A pool before it is initialised. -/
def new : NvmKvBufferPool := ⟨[], [], 0, 0, false⟩

/-- Free all buffers of the pool (`delete_all_buffers`). They stay in the vectors. -/
def deleteAllBuffers (pool : NvmKvBufferPool) (heap : BufferHeap) : BufferHeap := fun address =>
  if some address ∈ pool.buffers then none else heap address

/-- The loop that allocates the buffers, and whether it came to its end. -/
def preallocate (allocator : Allocator) (bufferLimit : UInt32) :
    (remaining i : Nat) → NvmKvBufferPool → BufferHeap → Bool × NvmKvBufferPool × BufferHeap
  | 0, _, pool, heap => (true, pool, heap)
  | remaining + 1, i, pool, heap =>
      match allocator.memalign i heap bufferLimit with
      | none => (false, pool, heap)
      | some buffer =>
          preallocate allocator bufferLimit remaining (i + 1)
            { pool with
              buffers := some buffer :: pool.buffers
              bufferSizes := bufferLimit :: pool.bufferSizes }
            (Function.update heap buffer (some bufferLimit))

/-- Allocate the buffers of a new pool (`initialize`). -/
def initializePool (allocator : Allocator) (numBuffers bufferLimit : UInt32)
    (pool : NvmKvBufferPool) (heap : BufferHeap) :
    Except BufferPoolError Unit × NvmKvBufferPool × BufferHeap :=
  if pool.initialized then
    (.ok (), pool, heap)
  else if mMaxBuffers < numBuffers then
    (.error .maxLimitReached, pool, heap)
  else
    match preallocate allocator bufferLimit numBuffers.toNat 0 pool heap with
    | (false, pool, heap) => (.error .outOfMemory, pool, pool.deleteAllBuffers heap)
    | (true, pool, heap) =>
        (.ok (),
          { pool with numBuffers := numBuffers, bufferLimit := bufferLimit, initialized := true },
          heap)

/-- Take the last buffer with its size, or a new one in its place (`get_buf`). While the
pool is empty the call waits. -/
def getBuf (allocator : Allocator) (attempt : Nat) (size : UInt32) (pool : NvmKvBufferPool)
    (heap : BufferHeap) : Option (BufferEntry × NvmKvBufferPool × BufferHeap) :=
  match pool.buffers, pool.bufferSizes with
  | buffer :: buffers, last :: bufferSizes =>
      let taken := { pool with buffers := buffers, bufferSizes := bufferSizes }
      let bufferSize := sizeAsInt last
      if bufferSize < size then
        match allocator.memalign attempt heap size with
        | none => some ((none, 0), pool, heap)
        | some newBuffer =>
            let allocated := Function.update heap newBuffer (some size)
            let heap :=
              match buffer with
              | some old => Function.update allocated old none
              | none => allocated
            some ((some newBuffer, sizeAsInt size), taken, heap)
      else
        some ((buffer, bufferSize), taken, heap)
  | _, _ => none

/-- Put a buffer into the pool (`release_buf`). -/
def releaseBuf (buff : Option Nat) (size : UInt32) (pool : NvmKvBufferPool) : NvmKvBufferPool :=
  { pool with
    buffers := buff :: pool.buffers
    bufferSizes := size :: pool.bufferSizes }

end NvmKvBufferPool

/-- A pool in use: what is allocated, and the buffers that clients have got and not
released, with the sizes they were told. -/
structure BufferState where
  pool : NvmKvBufferPool
  heap : BufferHeap
  held : List BufferEntry

/-- What a client has after a call of `get_buf`: a null pointer is no buffer. -/
def BufferEntry.takenInto (entry : BufferEntry) (held : List BufferEntry) : List BufferEntry :=
  match entry.1 with
  | some _ => entry :: held
  | none => held

/-- The calls of clients, which release what they have got, with the size they were told. -/
inductive BufferStep (allocator : Allocator) : BufferState → BufferState → Prop
  | get {state : BufferState} (attempt : Nat) (size : UInt32) {entry : BufferEntry}
      {pool : NvmKvBufferPool} {heap : BufferHeap}
      (taken : state.pool.getBuf allocator attempt size state.heap = some (entry, pool, heap)) :
      BufferStep allocator state ⟨pool, heap, entry.takenInto state.held⟩
  | release {state : BufferState} {entry : BufferEntry} (mine : entry ∈ state.held) :
      BufferStep allocator state
        ⟨state.pool.releaseBuf entry.1 entry.2, state.heap, state.held.erase entry⟩

/-- Every entry is an allocation of its size, no allocation has two entries, and every
allocation has one. -/
structure Balanced (entries : List BufferEntry) (heap : BufferHeap) : Prop where
  apart : (entries.map Prod.fst).Nodup
  real : ∀ entry ∈ entries, ∃ address, entry.1 = some address ∧ heap address = some entry.2
  kept : ∀ address size, heap address = some size → (some address, size) ∈ entries

section Ledger

variable {entries others : List BufferEntry} {heap : BufferHeap} {address old : Nat}
  {size oldSize : UInt32}

/-- The order of the entries does not matter. -/
theorem Balanced.perm (balanced : Balanced entries heap) (reordered : entries.Perm others) :
    Balanced others heap := by
  constructor
  · exact (reordered.map Prod.fst).nodup_iff.mp balanced.apart
  · intro entry member
    exact balanced.real entry (reordered.mem_iff.mpr member)
  · intro address size allocated
    exact reordered.mem_iff.mp (balanced.kept address size allocated)

/-- An address that is not in use has no entry. -/
theorem Balanced.unlisted (balanced : Balanced entries heap) (unused : heap address = none) :
    some address ∉ entries.map Prod.fst := by
  intro member
  obtain ⟨entry, listed, same⟩ := List.mem_map.mp member
  obtain ⟨place, pointer, allocated⟩ := balanced.real entry listed
  rw [same] at pointer
  cases pointer
  rw [unused] at allocated
  cases allocated

/-- An allocation adds its entry. -/
theorem Balanced.allocate (balanced : Balanced entries heap) (unused : heap address = none)
    (size : UInt32) :
    Balanced ((some address, size) :: entries) (Function.update heap address (some size)) := by
  have unlisted := balanced.unlisted unused
  constructor
  · exact List.nodup_cons.mpr ⟨unlisted, balanced.apart⟩
  · intro entry member
    rcases List.mem_cons.mp member with rfl | listed
    · exact ⟨address, rfl, Function.update_self _ _ _⟩
    · obtain ⟨place, pointer, allocated⟩ := balanced.real entry listed
      refine ⟨place, pointer, ?_⟩
      rw [Function.update_of_ne, allocated]
      rintro rfl
      exact unlisted (List.mem_map.mpr ⟨entry, listed, pointer⟩)
  · intro place placeSize allocated
    by_cases same : place = address
    · subst same
      rw [Function.update_self] at allocated
      cases allocated
      exact List.mem_cons_self
    · rw [Function.update_of_ne same] at allocated
      exact List.mem_cons_of_mem _ (balanced.kept place placeSize allocated)

/-- Freeing an allocation takes its entry away. -/
theorem Balanced.free (balanced : Balanced ((some old, oldSize) :: entries) heap) :
    Balanced entries (Function.update heap old none) := by
  obtain ⟨alone, apart⟩ := List.nodup_cons.mp balanced.apart
  constructor
  · exact apart
  · intro entry listed
    obtain ⟨place, pointer, allocated⟩ := balanced.real entry (List.mem_cons_of_mem _ listed)
    refine ⟨place, pointer, ?_⟩
    rw [Function.update_of_ne, allocated]
    rintro rfl
    exact alone (List.mem_map.mpr ⟨entry, listed, pointer⟩)
  · intro place placeSize allocated
    by_cases same : place = old
    · subst same
      rw [Function.update_self] at allocated
      cases allocated
    · rw [Function.update_of_ne same] at allocated
      rcases List.mem_cons.mp (balanced.kept place placeSize allocated) with first | listed
      · exact absurd (Option.some.inj (Prod.ext_iff.mp first).1) same
      · exact listed

end Ledger

/-- The buffers in the pool with their sizes. -/
def NvmKvBufferPool.entries (pool : NvmKvBufferPool) : List BufferEntry :=
  pool.buffers.zip pool.bufferSizes

/-- The accounts of a pool: its vectors go together, and with what the clients have they
make the entries of a balanced ledger, as many as there were buffers in the beginning. -/
structure Accounted (numBuffers : Nat) (state : BufferState) : Prop where
  lengths : state.pool.buffers.length = state.pool.bufferSizes.length
  number : state.pool.buffers.length + state.held.length = numBuffers
  balanced : Balanced (state.pool.entries ++ state.held) state.heap

section Pool

variable {allocator : Allocator} {pool : NvmKvBufferPool} {heap : BufferHeap}

/-- The loop of the initialisation fills the ledger with new allocations. Induction is on
the buffers that remain. -/
theorem preallocate_balanced {bufferLimit : UInt32} {remaining i : Nat} {filled : NvmKvBufferPool}
    {after : BufferHeap} (lengths : pool.buffers.length = pool.bufferSizes.length)
    (balanced : Balanced pool.entries heap)
    (ran : NvmKvBufferPool.preallocate allocator bufferLimit remaining i pool heap =
      (true, filled, after)) :
    filled.buffers.length = filled.bufferSizes.length ∧
      filled.buffers.length = pool.buffers.length + remaining ∧ Balanced filled.entries after := by
  induction remaining generalizing i pool heap with
  | zero =>
    cases ran
    exact ⟨lengths, rfl, balanced⟩
  | succ remaining inductionHypothesis =>
    rw [NvmKvBufferPool.preallocate] at ran
    cases answered : allocator.memalign i heap bufferLimit with
    | none =>
      rw [answered] at ran
      cases ran
    | some buffer =>
      rw [answered] at ran
      have unused := allocator.fresh _ _ _ _ answered
      have grown : (some buffer :: pool.buffers).length =
          (bufferLimit :: pool.bufferSizes).length := congrArg Nat.succ lengths
      have added : Balanced (NvmKvBufferPool.entries
          { pool with
            buffers := some buffer :: pool.buffers
            bufferSizes := bufferLimit :: pool.bufferSizes })
          (Function.update heap buffer (some bufferLimit)) := balanced.allocate unused bufferLimit
      obtain ⟨same, longer, filledBalanced⟩ := inductionHypothesis grown added ran
      refine ⟨same, ?_, filledBalanced⟩
      rw [longer, List.length_cons]
      omega

/-- A new pool that is initialised is accounted for, and nobody has a buffer. -/
theorem initialize_accounted {numBuffers bufferLimit : UInt32} {filled : NvmKvBufferPool}
    {after : BufferHeap}
    (begun : NvmKvBufferPool.new.initializePool allocator numBuffers bufferLimit (fun _ => none) =
      (.ok (), filled, after)) :
    Accounted numBuffers.toNat ⟨filled, after, []⟩ := by
  have empty : Balanced NvmKvBufferPool.new.entries fun _ => none :=
    ⟨List.nodup_nil, fun _ absent => absurd absent List.not_mem_nil,
      fun _ _ absent => by cases absent⟩
  rw [NvmKvBufferPool.initializePool, if_neg (by decide)] at begun
  split_ifs at begun
  · cases begun
  split at begun
  · cases begun
  · rename_i allocated heap ran
    cases begun
    obtain ⟨lengths, number, balanced⟩ := preallocate_balanced rfl empty ran
    constructor
    · exact lengths
    · exact number.trans (Nat.zero_add _)
    · rw [List.append_nil]
      exact balanced

/-- What a call of `get_buf` does to the entries of the pool: it takes the first one, or
replaces the allocation of a smaller first one, or leaves the pool as it is. -/
theorem getBuf_cases {attempt : Nat} {size : UInt32} {entry : BufferEntry}
    {after : NvmKvBufferPool} {heapAfter : BufferHeap}
    (taken : pool.getBuf allocator attempt size heap = some (entry, after, heapAfter)) :
    (entry.1 = none ∧ after = pool ∧ heapAfter = heap) ∨
    (∃ first : BufferEntry,
      pool.buffers = first.1 :: after.buffers ∧ pool.bufferSizes = first.2 :: after.bufferSizes ∧
      ((entry = first ∧ heapAfter = heap ∧ size ≤ first.2) ∨
        ∃ newBuffer, heap newBuffer = none ∧ entry = (some newBuffer, size) ∧
          heapAfter = match first.1 with
            | some old =>
                Function.update (Function.update heap newBuffer (some size)) old none
            | none => Function.update heap newBuffer (some size))) := by
  unfold NvmKvBufferPool.getBuf at taken
  split at taken
  · rename_i buffer buffers last bufferSizes someBuffer someSize
    have unsigned : ∀ size, sizeAsInt size = size := UInt32.toUInt32_toInt32
    simp only [unsigned] at taken
    split_ifs at taken with small
    · split at taken
      · cases taken
        exact Or.inl ⟨rfl, rfl, rfl⟩
      · rename_i newBuffer answered
        cases taken
        exact Or.inr ⟨(buffer, last), someBuffer, someSize,
          Or.inr ⟨newBuffer, allocator.fresh _ _ _ _ answered, rfl, rfl⟩⟩
    · cases taken
      exact Or.inr ⟨(buffer, last), someBuffer, someSize,
        Or.inl ⟨rfl, rfl, UInt32.not_lt.mp small⟩⟩
  · cases taken

/-- The entries of the pool as pairs of buffers and numbers of bytes. -/
def NvmKvBufferPool.listed (pool : NvmKvBufferPool) : List (Option Nat × Nat) :=
  pool.entries.map fun entry => (entry.1, entry.2.toNat)

/-- A buffer that is released comes to the front of the pairs, too. -/
theorem releaseBuf_listed {ι : Type} [DecidableEq ι] {call : ι} {pairs : BufferPool ι}
    (same : pairs.buffers = pool.listed) (buff : Option Nat) (size : UInt32) :
    (pairs.releaseBuf call buff size.toNat).buffers = (pool.releaseBuf buff size).listed :=
  congrArg (List.cons (buff, size.toNat)) same

end Pool

section Runs

variable {allocator : Allocator} {numBuffers : Nat} {state next : BufferState}

/-- Every call of a client keeps the accounts. A client gets nothing, the first entry, or that of a
new allocation instead. -/
theorem Accounted.step (accounted : Accounted numBuffers state)
    (step : BufferStep allocator state next) : Accounted numBuffers next := by
  obtain ⟨lengths, number, balanced⟩ := accounted
  cases step with
  | get attempt size taken =>
    rename_i entry pool heap
    rcases getBuf_cases taken with ⟨null, rfl, rfl⟩ | ⟨first, buffers, sizes, result⟩
    · rw [BufferEntry.takenInto, null]
      exact ⟨lengths, number, balanced⟩
    · have entries : state.pool.entries = first :: pool.entries := by
        rw [NvmKvBufferPool.entries, buffers, sizes]
        rfl
      rw [buffers, sizes, List.length_cons, List.length_cons] at lengths
      rw [buffers, List.length_cons] at number
      rw [entries, List.cons_append] at balanced
      obtain ⟨old, pointer, allocated⟩ := balanced.real first List.mem_cons_self
      rcases result with ⟨rfl, rfl, _⟩ | ⟨newBuffer, unused, rfl, rfl⟩
      · have held : entry.takenInto state.held = entry :: state.held := by
          rw [BufferEntry.takenInto, pointer]
        rw [held]
        constructor
        · exact Nat.succ.inj lengths
        · change pool.buffers.length + (state.held.length + 1) = numBuffers
          omega
        · exact balanced.perm List.perm_middle.symm
      · have firstEntry : first = (some old, first.2) := Prod.ext pointer rfl
        have added := balanced.allocate unused size
        rw [firstEntry] at added
        have replaced := (added.perm (List.Perm.swap _ _ _)).free
        rw [pointer]
        constructor
        · exact Nat.succ.inj lengths
        · change pool.buffers.length + (state.held.length + 1) = numBuffers
          omega
        · exact replaced.perm List.perm_middle.symm
  | release mine =>
    rename_i entry
    have back : (state.pool.releaseBuf entry.1 entry.2).entries = entry :: state.pool.entries := rfl
    constructor
    · exact congrArg Nat.succ lengths
    · have less := List.length_erase_of_mem mine
      have some := List.length_pos_of_mem mine
      change state.pool.buffers.length + 1 + (state.held.erase entry).length = numBuffers
      omega
    · rw [back, List.cons_append]
      have returned : (state.pool.entries ++ state.held).Perm
          (state.pool.entries ++ entry :: state.held.erase entry) :=
        List.Perm.append_left _ (List.perm_cons_erase mine)
      exact balanced.perm (returned.trans List.perm_middle)

/-- And so does every run of calls. -/
theorem Accounted.run (accounted : Accounted numBuffers state)
    (run : Relation.ReflTransGen (BufferStep allocator) state next) :
    Accounted numBuffers next := by
  induction run with
  | refl => exact accounted
  | tail _ step inductionHypothesis => exact inductionHypothesis.step step

/-- What a client gets is an allocation of the size it is told, which is enough. -/
theorem Accounted.given (accounted : Accounted numBuffers state) {attempt : Nat} {size : UInt32}
    {entry : BufferEntry} {pool : NvmKvBufferPool} {heap : BufferHeap}
    (taken : state.pool.getBuf allocator attempt size state.heap = some (entry, pool, heap))
    (given : entry.1 ≠ none) :
    size ≤ entry.2 ∧ ∃ address, entry.1 = some address ∧ heap address = some entry.2 := by
  obtain ⟨address, pointer⟩ := Option.ne_none_iff_exists'.mp given
  have held : entry.takenInto state.held = entry :: state.held := by
    rw [BufferEntry.takenInto, pointer]
  have after := accounted.step (BufferStep.get attempt size taken)
  rw [held] at after
  refine ⟨?_, after.balanced.real entry (List.mem_append_right _ List.mem_cons_self)⟩
  rcases getBuf_cases taken with ⟨null, _, _⟩ | ⟨first, _, _, ⟨rfl, _, enough⟩ | ⟨_, _, rfl, _⟩⟩
  · exact absurd null given
  · exact enough
  · exact UInt32.le_refl size

end Runs

/-- An allocator that gives the number of the attempt while there is memory for it, unless the
number is in use. -/
def numberingAllocator (memory : Nat → Bool) : Allocator where
  memalign attempt heap _ :=
    match memory attempt, heap attempt with
    | true, none => some attempt
    | _, _ => none
  fresh := by
    intro attempt heap size address given
    split at given
    · rename_i unused
      cases given
      exact unused
    · cases given

/-- A pool of pairs stands for a pool in use: it lists the same buffers, and nothing is allocated
under the numbers that its next allocations get. -/
structure BufferPool.StandsFor {ι : Type} (pairs : BufferPool ι) (state : BufferState) : Prop where
  listed : pairs.buffers = state.pool.listed
  ahead : ∀ address, pairs.allocations ≤ address → state.heap address = none

/-- The calls that clients make on a pool of pairs, which release what they have got, with the
size they were told. -/
inductive PairStep {ι : Type} [DecidableEq ι] :
    BufferPool ι × List BufferEntry → BufferPool ι × List BufferEntry → Prop
  | get {pairs after : BufferPool ι} {held : List BufferEntry} (call : ι) (size : UInt32)
      {entry : BufferEntry}
      (taken : pairs.getBuf call size.toNat = some ((entry.1, entry.2.toNat), after)) :
      PairStep (pairs, held) (after, entry.takenInto held)
  | release {pairs : BufferPool ι} {held : List BufferEntry} (call : ι) {entry : BufferEntry}
      (mine : entry ∈ held) :
      PairStep (pairs, held) (pairs.releaseBuf call entry.1 entry.2.toNat, held.erase entry)

section Pairs

variable {ι : Type} [DecidableEq ι] {numBuffers : Nat} {pairs after : BufferPool ι}
  {state : BufferState} {held : List BufferEntry}

omit [DecidableEq ι] in
/-- The attempt at a new buffer of a pool of pairs gives its number, which is not in use. -/
theorem BufferPool.StandsFor.memalign (stands : pairs.StandsFor state) (size : UInt32) :
    (numberingAllocator pairs.memory).memalign pairs.allocations state.heap size =
      if pairs.memory pairs.allocations then some pairs.allocations else none := by
  have unused := stands.ahead pairs.allocations le_rfl
  cases memory : pairs.memory pairs.allocations <;> simp [numberingAllocator, memory, unused]

omit [DecidableEq ι] in
/-- While the vectors are as long as each other, the pool answers a call as the pairs do that
stand for it, and the pairs left by both calls stand for each other: a new buffer has the number
of its attempt, and the numbers behind it stay unused. -/
theorem BufferPool.StandsFor.getBuf {call : ι} {size : UInt32} {entry : BufferEntry}
    (stands : pairs.StandsFor state)
    (lengths : state.pool.buffers.length = state.pool.bufferSizes.length)
    (taken : pairs.getBuf call size.toNat = some ((entry.1, entry.2.toNat), after)) :
    after.memory = pairs.memory ∧ ∃ pool heap,
      state.pool.getBuf (numberingAllocator pairs.memory) pairs.allocations size state.heap =
        some (entry, pool, heap) ∧ after.StandsFor ⟨pool, heap, entry.takenInto state.held⟩ := by
  obtain ⟨⟨buffers, bufferSizes, numBuffers, bufferLimit, initialized⟩, heap, held⟩ := state
  have attempted := stands.memalign size
  obtain ⟨listed, ahead⟩ := stands
  have behind : ∀ address, pairs.allocations + 1 ≤ address → heap address = none :=
    fun address more => ahead address (Nat.le_of_succ_le more)
  have unsigned : ∀ size, sizeAsInt size = size := UInt32.toUInt32_toInt32
  cases buffers with
  | nil =>
    have empty : pairs.buffers = [] := listed
    simp only [BufferPool.getBuf, empty] at taken
    cases taken
  | cons buffer buffers =>
    cases bufferSizes with
    | nil => cases lengths
    | cons last bufferSizes =>
      have filled : pairs.buffers = (buffer, last.toNat) :: NvmKvBufferPool.listed
          ⟨buffers, bufferSizes, numBuffers, bufferLimit, initialized⟩ := listed
      simp only [BufferPool.getBuf, filled] at taken
      simp only [NvmKvBufferPool.getBuf, unsigned, attempted, UInt32.lt_iff_toNat_lt]
      obtain ⟨got, told⟩ := entry
      split_ifs at taken ⊢ with small memory
      · simp only [Option.some.injEq, Prod.mk.injEq, UInt32.toNat_inj] at taken
        obtain ⟨⟨rfl, rfl⟩, rfl⟩ := taken
        refine ⟨rfl, _, _, rfl, rfl, fun address more => ?_⟩
        have fresh : Function.update heap pairs.allocations (some size) address = none := by
          rw [Function.update_of_ne (Nat.ne_of_gt more), behind address more]
        cases buffer with
        | none => exact fresh
        | some old =>
          dsimp only
          rw [Function.update_apply, fresh, ite_self]
      · simp only [Option.some.injEq, Prod.mk.injEq] at taken
        obtain ⟨⟨rfl, none⟩, rfl⟩ := taken
        rw [show (0 : Nat) = (0 : UInt32).toNat from rfl, UInt32.toNat_inj] at none
        subst none
        exact ⟨rfl, _, _, rfl, rfl, behind⟩
      · simp only [Option.some.injEq, Prod.mk.injEq, UInt32.toNat_inj] at taken
        obtain ⟨⟨rfl, rfl⟩, rfl⟩ := taken
        exact ⟨rfl, _, _, rfl, rfl, ahead⟩

/-- Every call of a client on the pairs is one on the pool they stand for. -/
theorem BufferPool.StandsFor.step (stands : pairs.StandsFor state)
    (lengths : state.pool.buffers.length = state.pool.bufferSizes.length)
    (step : PairStep (pairs, state.held) (after, held)) :
    after.memory = pairs.memory ∧ ∃ next,
      BufferStep (numberingAllocator pairs.memory) state next ∧ next.held = held ∧
        after.StandsFor next := by
  cases step with
  | get call size taken =>
    obtain ⟨kept, pool, heap, same, stand⟩ := stands.getBuf lengths taken
    exact ⟨kept, _, .get _ size same, rfl, stand⟩
  | release call mine =>
    exact ⟨rfl, _, .release mine, rfl, releaseBuf_listed stands.listed _ _, stands.ahead⟩

/-- And every run of calls on the pairs is a run on the pool, so that what the clients and the
pairs have is accounted for. Induction is on the calls. -/
theorem BufferPool.StandsFor.run {reached : BufferPool ι × List BufferEntry}
    (stands : pairs.StandsFor state) (accounted : Accounted numBuffers state)
    (run : Relation.ReflTransGen PairStep (pairs, state.held) reached) :
    reached.1.memory = pairs.memory ∧ ∃ next,
      Relation.ReflTransGen (BufferStep (numberingAllocator pairs.memory)) state next ∧
        next.held = reached.2 ∧ reached.1.StandsFor next ∧ Accounted numBuffers next := by
  induction run with
  | refl => exact ⟨rfl, state, .refl, rfl, stands, accounted⟩
  | @tail before behind _ step inductionHypothesis =>
    obtain ⟨kept, next, steps, held, stands, accounted⟩ := inductionHypothesis
    obtain ⟨pairs, _⟩ := before
    cases held
    obtain ⟨keeps, last, stepped, held, stands⟩ := stands.step accounted.lengths step
    rw [kept] at stepped
    exact ⟨keeps.trans kept, last, steps.tail stepped, held, stands, accounted.step stepped⟩

end Pairs

/-- In every run of calls on an initialised pool, the two vectors are as long as each other,
the buffers in the pool and those of the clients are as many as in the beginning, none of
them is twice among them, and every size is the size of the allocation. A client gets a
buffer that is large enough, or none. -/
theorem buffers_accounted (allocator : Allocator) (numBuffers bufferLimit : UInt32)
    {filled : NvmKvBufferPool} {heap : BufferHeap} {state : BufferState}
    (begun : NvmKvBufferPool.new.initializePool allocator numBuffers bufferLimit
      (fun _ => none) = (.ok (), filled, heap))
    (run : Relation.ReflTransGen (BufferStep allocator) ⟨filled, heap, []⟩ state) :
    Accounted numBuffers.toNat state ∧
    ∀ attempt size entry pool heap,
      state.pool.getBuf allocator attempt size state.heap = some (entry, pool, heap) →
      entry.1 ≠ none →
      size ≤ entry.2 ∧ ∃ address, entry.1 = some address ∧ heap address = some entry.2 := by
  have accounted := (initialize_accounted begun).run run
  refine ⟨accounted, ?_⟩
  intro attempt size entry pool heap taken given
  exact accounted.given taken given

/-- A pool made with two buffers of 512 bytes. -/
def twoBuffers : BufferState where
  pool := ⟨[some 1, some 0], [512, 512], 2, 512, true⟩
  heap := Function.update (Function.update (fun _ => none) 0 (some 512)) 1 (some 512)
  held := []

/-- One of them was too small for a client, which got a new one. -/
def replacedBuffer : BufferState where
  pool := ⟨[some 0], [512], 2, 512, true⟩
  heap := Function.update (Function.update twoBuffers.heap 2 (some 1024)) 1 none
  held := [(some 2, 1024)]

/-- The accounts are right after the client has released the new one. -/
theorem buffers_accounted_replaced :
    Accounted 2 ⟨⟨[some 2, some 0], [1024, 512], 2, 512, true⟩, replacedBuffer.heap, []⟩ := by
  have begun : NvmKvBufferPool.new.initializePool (numberingAllocator fun _ => true) 2 512
      (fun _ => none) = (.ok (), twoBuffers.pool, twoBuffers.heap) := rfl
  have got : BufferStep (numberingAllocator fun _ => true) twoBuffers replacedBuffer :=
    @BufferStep.get (numberingAllocator fun _ => true) twoBuffers 2 1024 (some 2, 1024)
      replacedBuffer.pool replacedBuffer.heap rfl
  have released := @BufferStep.release (numberingAllocator fun _ => true) replacedBuffer
    (some 2, 1024) List.mem_cons_self
  exact (buffers_accounted (numberingAllocator fun _ => true) 2 512 begun
    ((Relation.ReflTransGen.single got).tail released)).1

end Nvmkv
