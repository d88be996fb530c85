import Nvmkv.AsyncExpiry
import Nvmkv.BlockQueues
import Nvmkv.Tilings

/-!
# The queue of expired addresses

Any number of calls add addresses to the queue and any number of workers take blocks from
it, each under the mutex of the queue. The machine here has these two steps and no more:
`updateExpiryQueue`, as the store has it, and the taking of a full block
(`answerAsync_popBlock`). Allocations succeed.

Beside the queue it records what was put in, numbered in the order of the steps, which of
these entries a call left its address in, and which blocks were handed to which worker. The
entries put in are those handed out, block after block, and behind them those queued.

An address that the last block has already is not added again. The check does not look at
the blocks in front of the last one, and when that one is full it does not look at any. The
same address can therefore be queued twice; it is not as long as no call names an address
of a block that the call leaves as it is.
-/

namespace Nvmkv

/-- A step on the queue: a call adds an address, or a worker takes a block. -/
inductive QueueStep (ι : Type) where
  | update (keyLoc : Nat) (hdr : NvmKvHeader)
  | pop (worker : ι)

/-- A call has left its address in an entry, which is known by its number. -/
structure Accepted where
  keyLoc : Nat
  entry : Nat

/-- A block that a worker was handed, with the number of its first entry. -/
structure Handed (ι : Type) where
  worker : ι
  first : Nat
  block : List NvmIovec

/-- The entries of the block. -/
def Handed.size {ι : Type} (handed : Handed ι) : Nat := handed.block.length

/-- The queue with the records of what went through it. -/
structure QueueState (ι : Type) where
  queue : List (List NvmIovec)
  inserted : List NvmIovec
  accepted : List Accepted
  handed : List (Handed ι)

namespace QueueState

variable {ι : Type}

/-- Nothing was queued yet. -/
def empty : QueueState ι := ⟨[], [], [], []⟩

/-- The entries that workers have been handed. -/
def handedCount (state : QueueState ι) : Nat := (state.handed.map Handed.size).sum

/-- A call adds an address. The block that it looks at ends the entries put in so far, so
that the place of the address in it tells the number of the entry. -/
def update (capabilities : NvmKvStoreCapabilities) (state : QueueState ι) (keyLoc : Nat)
    (hdr : NvmKvHeader) : QueueState ι :=
  let block := (BlockQueue.split capabilities.nvmMaxNumIovs state.queue).2
  let present := block.any fun vector => vector.iovLba = keyLoc
  { state with
    queue := updateExpiryQueue capabilities state.queue keyLoc hdr
    inserted :=
      if present then state.inserted
      else state.inserted ++ [expiryIovec capabilities.nvmSectorSize keyLoc hdr]
    accepted := state.accepted ++
      [⟨keyLoc, state.inserted.length - block.length +
        block.findIdx fun vector => vector.iovLba = keyLoc⟩] }

/-- One step. A worker that finds no full block at the front waits. -/
def step (capabilities : NvmKvStoreCapabilities) (state : QueueState ι) :
    QueueStep ι → Option (QueueState ι)
  | .update keyLoc hdr => some (state.update capabilities keyLoc hdr)
  | .pop worker =>
      (BlockQueue.take capabilities.nvmMaxNumIovs state.queue).map fun taken =>
        { state with
          queue := taken.2
          handed := state.handed ++ [⟨worker, state.handedCount, taken.1⟩] }

/-- A run of steps from a state. It ends early where a worker has to wait. -/
def run (capabilities : NvmKvStoreCapabilities) (state : QueueState ι) :
    List (QueueStep ι) → Option (QueueState ι)
  | [] => some state
  | first :: rest =>
    (state.step capabilities first).bind fun reached => reached.run capabilities rest

end QueueState

/-- Workers of the store take blocks in the same way. -/
theorem answerAsync_popBlock {ι : Type} [DecidableEq ι] (store : NvmKvStore) (calls : ι → AsyncCall)
    (thread : ι) (state : AsyncState ι) :
    answerAsync store calls thread .popBlock state =
      (BlockQueue.take store.capabilities.nvmMaxNumIovs state.store.expiryQueue).map fun taken =>
        (taken.1,
          { state with
            store := { state.store with expiryQueue := taken.2 }
            popped := Function.update state.popped thread taken.1 }) := by
  cases queue : state.store.expiryQueue with
  | nil =>
    simp only [answerAsync, queue]
    rfl
  | cons block rest =>
    simp only [answerAsync, queue, BlockQueue.take]
    split <;> rfl

/-- A call adds to the block that the queue has open. -/
theorem updateExpiryQueue_split (capabilities : NvmKvStoreCapabilities)
    (queue : List (List NvmIovec)) (keyLoc : Nat) (hdr : NvmKvHeader) :
    updateExpiryQueue capabilities queue keyLoc hdr =
      let parts := BlockQueue.split capabilities.nvmMaxNumIovs queue
      if parts.2.any fun vector => vector.iovLba = keyLoc then parts.1 ++ [parts.2]
      else parts.1 ++ [parts.2 ++ [expiryIovec capabilities.nvmSectorSize keyLoc hdr]] := by
  unfold updateExpiryQueue BlockQueue.split
  cases queue.getLast? <;> rfl

section Steps

variable {ι : Type} {capabilities : NvmKvStoreCapabilities} {queue : List (List NvmIovec)}
  {keyLoc : Nat} {hdr : NvmKvHeader}

/-- An address that the open block has is not added: the queue stays as it was. -/
theorem updateExpiryQueue_present
    (present : (BlockQueue.split capabilities.nvmMaxNumIovs queue).2.any
      fun vector => vector.iovLba = keyLoc) :
    updateExpiryQueue capabilities queue keyLoc hdr = queue := by
  rw [updateExpiryQueue_split]
  dsimp only
  rw [if_pos present]
  apply BlockQueue.split_last
  intro none
  rw [none] at present
  cases present

/-- An address that it has not is added. -/
theorem updateExpiryQueue_absent
    (absent : ¬(BlockQueue.split capabilities.nvmMaxNumIovs queue).2.any
      fun vector => vector.iovLba = keyLoc) :
    updateExpiryQueue capabilities queue keyLoc hdr =
      (BlockQueue.split capabilities.nvmMaxNumIovs queue).1 ++
        [(BlockQueue.split capabilities.nvmMaxNumIovs queue).2 ++
          [expiryIovec capabilities.nvmSectorSize keyLoc hdr]] := by
  rw [updateExpiryQueue_split]
  exact if_neg absent

/-- What the entries of the queue are after an address was added. -/
theorem updateExpiryQueue_flatten
    (absent : ¬(BlockQueue.split capabilities.nvmMaxNumIovs queue).2.any
      fun vector => vector.iovLba = keyLoc) :
    (updateExpiryQueue capabilities queue keyLoc hdr).flatten =
      queue.flatten ++ [expiryIovec capabilities.nvmSectorSize keyLoc hdr] := by
  rw [updateExpiryQueue_absent absent, List.flatten_append, List.flatten_singleton,
    ← List.append_assoc, BlockQueue.split_flatten]

/-- Where a block has an address that it was searched for. -/
theorem present_entry {block : List NvmIovec}
    (present : block.any fun vector => vector.iovLba = keyLoc) :
    ∃ entry, block[block.findIdx fun vector => vector.iovLba = keyLoc]? = some entry ∧
      entry.iovLba = keyLoc := by
  have found := List.findIdx_getElem?_eq_getElem_of_exists (List.any_eq_true.mp present)
  have there := List.findIdx_of_getElem?_eq_some found
  exact ⟨_, found, of_decide_eq_true there⟩

/-- What holds of the queue and the records between any two steps. -/
structure QueueInvariant (capabilities : NvmKvStoreCapabilities) (state : QueueState ι) : Prop where
  filled : BlockQueue.Filled capabilities.nvmMaxNumIovs state.queue
  queued : state.inserted.drop state.handedCount = state.queue.flatten
  enough : state.handedCount ≤ state.inserted.length
  blocks : ∀ handed ∈ state.handed, handed.block.length = capabilities.nvmMaxNumIovs ∧
    handed.block = (state.inserted.drop handed.first).take capabilities.nvmMaxNumIovs
  order : Tiles Handed.first Handed.size 0 state.handed state.handedCount
  accepted : ∀ call ∈ state.accepted, ∃ entry,
    state.inserted[call.entry]? = some entry ∧ entry.iovLba = call.keyLoc

namespace QueueInvariant

/-- The queue of a new store meets the invariant. -/
theorem empty : QueueInvariant capabilities (QueueState.empty : QueueState ι) where
  filled := BlockQueue.Filled.nil
  queued := rfl
  enough := Nat.le_refl _
  blocks := fun _ absent => absurd absent List.not_mem_nil
  order := rfl
  accepted := fun _ absent => absurd absent List.not_mem_nil

variable {state : QueueState ι}

/-- The open block ends the entries put in so far. -/
theorem open_suffix (invariant : QueueInvariant capabilities state) :
    ∃ before, state.inserted =
      before ++ (BlockQueue.split capabilities.nvmMaxNumIovs state.queue).2 := by
  refine ⟨state.inserted.take state.handedCount ++
    (BlockQueue.split capabilities.nvmMaxNumIovs state.queue).1.flatten, ?_⟩
  rw [List.append_assoc, BlockQueue.split_flatten, ← invariant.queued, List.take_append_drop]

/-- The number of the entry that a call leaves its address in. -/
theorem entry_number (invariant : QueueInvariant capabilities state)
    {more : List NvmIovec} {vector : NvmIovec}
    (found : ((BlockQueue.split capabilities.nvmMaxNumIovs state.queue).2 ++ more)[
      (BlockQueue.split capabilities.nvmMaxNumIovs state.queue).2.findIdx
        fun vector => vector.iovLba = keyLoc]? = some vector) :
    (state.inserted ++ more)[state.inserted.length -
      (BlockQueue.split capabilities.nvmMaxNumIovs state.queue).2.length +
        (BlockQueue.split capabilities.nvmMaxNumIovs state.queue).2.findIdx
          fun vector => vector.iovLba = keyLoc]? = some vector := by
  obtain ⟨before, parts⟩ := invariant.open_suffix
  have start : state.inserted.length -
      (BlockQueue.split capabilities.nvmMaxNumIovs state.queue).2.length = before.length := by
    rw [parts, List.length_append]
    omega
  rw [start, parts, List.append_assoc, List.getElem?_append_right (by omega),
    Nat.add_sub_cancel_left]
  exact found

/-- An address that is there already changes the records of calls only. -/
theorem update_present (invariant : QueueInvariant capabilities state)
    (present : (BlockQueue.split capabilities.nvmMaxNumIovs state.queue).2.any
      fun vector => vector.iovLba = keyLoc) :
    QueueInvariant capabilities (state.update capabilities keyLoc hdr) := by
  have inserted : (state.update capabilities keyLoc hdr).inserted = state.inserted := if_pos present
  have queue : (state.update capabilities keyLoc hdr).queue = state.queue :=
    updateExpiryQueue_present present
  constructor
  · rw [queue]
    exact invariant.filled
  · rw [queue, inserted]
    exact invariant.queued
  · rw [inserted]
    exact invariant.enough
  · rw [inserted]
    exact invariant.blocks
  · exact invariant.order
  · rw [inserted]
    intro call member
    rcases List.mem_append.mp member with earlier | now
    · exact invariant.accepted call earlier
    · rw [List.mem_singleton.mp now]
      obtain ⟨entry, found, same⟩ := present_entry present
      refine ⟨entry, ?_, same⟩
      have number := @QueueInvariant.entry_number _ _ _ _ invariant [] entry
        (by rw [List.append_nil]; exact found)
      rw [List.append_nil] at number
      exact number

/-- An address that is not there is the last entry put in. -/
theorem update_absent (invariant : QueueInvariant capabilities state)
    (absent : ¬(BlockQueue.split capabilities.nvmMaxNumIovs state.queue).2.any
      fun vector => vector.iovLba = keyLoc) :
    QueueInvariant capabilities (state.update capabilities keyLoc hdr) := by
  have inserted : (state.update capabilities keyLoc hdr).inserted =
      state.inserted ++ [expiryIovec capabilities.nvmSectorSize keyLoc hdr] := if_neg absent
  have enough := invariant.enough
  constructor
  · have queue : (state.update capabilities keyLoc hdr).queue = _ := updateExpiryQueue_absent absent
    rw [queue]
    exact invariant.filled.put capabilities.iovsPositive _
  · have queue : (state.update capabilities keyLoc hdr).queue.flatten = _ :=
      updateExpiryQueue_flatten absent
    rw [queue, inserted, ← invariant.queued]
    exact List.drop_append_of_le_length enough
  · rw [inserted, List.length_append]
    exact Nat.le_add_right_of_le enough
  · rw [inserted]
    intro handed member
    obtain ⟨whole, same⟩ := invariant.blocks handed member
    have ends := (invariant.order.inside member).2
    rw [Handed.size, whole] at ends
    refine ⟨whole, ?_⟩
    rw [List.drop_append_of_le_length (by omega),
      List.take_append_of_le_length (by rw [List.length_drop]; omega)]
    exact same
  · exact invariant.order
  · rw [inserted]
    intro call member
    rcases List.mem_append.mp member with earlier | now
    · obtain ⟨entry, found, same⟩ := invariant.accepted call earlier
      have inside := (List.getElem?_eq_some_iff.mp found).1
      exact ⟨entry, by rw [List.getElem?_append_left inside]; exact found, same⟩
    · rw [List.mem_singleton.mp now]
      have none : ∀ vector ∈ (BlockQueue.split capabilities.nvmMaxNumIovs state.queue).2,
          decide (vector.iovLba = keyLoc) = false := by
        intro vector member
        by_contra same
        exact absent (List.any_eq_true.mpr ⟨vector, member, Bool.not_eq_false _ ▸ same⟩)
      refine ⟨expiryIovec capabilities.nvmSectorSize keyLoc hdr, invariant.entry_number ?_, rfl⟩
      rw [List.findIdx_eq_length_of_false none, List.getElem?_concat_length]

/-- A worker takes the first block. -/
theorem pop (invariant : QueueInvariant capabilities state) {worker : ι} {block : List NvmIovec}
    {rest : List (List NvmIovec)}
    (taken : BlockQueue.take capabilities.nvmMaxNumIovs state.queue = some (block, rest)) :
    QueueInvariant capabilities { state with
      queue := rest
      handed := state.handed ++ [⟨worker, state.handedCount, block⟩] } := by
  obtain ⟨queue, whole⟩ := BlockQueue.take_full invariant.filled taken
  have queued := invariant.queued
  rw [queue, List.flatten_cons] at queued
  have count : QueueState.handedCount { state with
      queue := rest
      handed := state.handed ++ [⟨worker, state.handedCount, block⟩] } =
      state.handedCount + block.length := by
    unfold QueueState.handedCount
    rw [List.map_append, List.sum_append]
    rfl
  have left := congrArg List.length queued
  rw [List.length_drop, List.length_append] at left
  constructor
  · have filled := invariant.filled
    rw [queue] at filled
    exact filled.tail
  · rw [count, ← List.drop_drop, queued]
    exact List.drop_append_length
  · rw [count]
    have enough := invariant.enough
    dsimp only
    omega
  · intro handed member
    rcases List.mem_append.mp member with earlier | now
    · exact invariant.blocks handed earlier
    · rw [List.mem_singleton.mp now]
      refine ⟨whole, ?_⟩
      dsimp only
      rw [queued, ← whole, List.take_append_length]
  · rw [count]
    apply invariant.order.append
    refine ⟨rfl, ?_, rfl⟩
    rw [Handed.size, whole]
    exact capabilities.iovsPositive
  · exact invariant.accepted

/-- One step keeps the invariant. -/
theorem step (invariant : QueueInvariant capabilities state) {next : QueueStep ι}
    {reached : QueueState ι} (stepped : state.step capabilities next = some reached) :
    QueueInvariant capabilities reached := by
  cases next with
  | update keyLoc hdr =>
    cases stepped
    by_cases present : (BlockQueue.split capabilities.nvmMaxNumIovs state.queue).2.any
        fun vector => vector.iovLba = keyLoc
    · exact invariant.update_present present
    · exact invariant.update_absent present
  | pop worker =>
    obtain ⟨⟨block, rest⟩, taken, same⟩ := Option.map_eq_some_iff.mp stepped
    rw [← same]
    exact invariant.pop taken

/-- Every run keeps it. Induction follows the steps. -/
theorem run {steps : List (QueueStep ι)} (invariant : QueueInvariant capabilities state)
    {reached : QueueState ι} (ran : state.run capabilities steps = some reached) :
    QueueInvariant capabilities reached := by
  induction steps generalizing state with
  | nil =>
    cases ran
    exact invariant
  | cons first rest inductionHypothesis =>
    obtain ⟨middle, stepped, further⟩ := Option.bind_eq_some_iff.mp ran
    exact inductionHypothesis (invariant.step stepped) further

end QueueInvariant

end Steps

section Runs

variable {ι : Type}

/-- What the queue and the workers can rely on. All blocks but the last one are full, and none
has more entries than a batch may have vectors. The blocks that workers were handed are full
and follow each other in the order in which entries were put in, and the queue goes on behind
them. An address that a call left is in an entry that was handed out once, or in one that is
still queued. -/
structure QueueIntegrity (capabilities : NvmKvStoreCapabilities) (state : QueueState ι) : Prop where
  full : ∀ block ∈ state.queue.dropLast, block.length = capabilities.nvmMaxNumIovs
  room : ∀ block ∈ state.queue, block.length ≤ capabilities.nvmMaxNumIovs
  handed : ∀ handed ∈ state.handed, handed.block.length = capabilities.nvmMaxNumIovs ∧
    handed.block = (state.inserted.drop handed.first).take capabilities.nvmMaxNumIovs
  order : Tiles Handed.first Handed.size 0 state.handed state.handedCount
  queued : state.queue.flatten = state.inserted.drop state.handedCount
  accepted : ∀ call ∈ state.accepted, ∃ entry, state.inserted[call.entry]? = some entry ∧
    entry.iovLba = call.keyLoc ∧
    ((call.entry < state.handedCount ∧ (state.handed.countP fun handed =>
        PieceCovers Handed.first Handed.size call.entry handed) = 1) ∨
      (state.queue.flatten[call.entry - state.handedCount]? = some entry ∧
        (state.handed.countP fun handed =>
          PieceCovers Handed.first Handed.size call.entry handed) = 0))

/-- In every run of calls and workers, whatever their order. -/
theorem expiry_queue_integrity (capabilities : NvmKvStoreCapabilities) (steps : List (QueueStep ι))
    (state : QueueState ι) (ran : QueueState.empty.run capabilities steps = some state) :
    QueueIntegrity capabilities state := by
  have invariant : QueueInvariant capabilities state := QueueInvariant.empty.run ran
  refine ⟨invariant.filled.full, fun block member => (invariant.filled.sized block member).2,
    invariant.blocks, invariant.order, invariant.queued.symm, ?_⟩
  intro call member
  obtain ⟨entry, found, same⟩ := invariant.accepted call member
  refine ⟨entry, found, same, ?_⟩
  have once := invariant.order.covered_once call.entry
  by_cases given : call.entry < state.handedCount
  · left
    rw [if_pos ⟨Nat.zero_le _, given⟩] at once
    exact ⟨given, once⟩
  · right
    rw [if_neg fun inside => given inside.2] at once
    refine ⟨?_, once⟩
    rw [← invariant.queued, List.getElem?_drop, Nat.add_sub_cancel' (Nat.le_of_not_lt given)]
    exact found

/-- Two addresses fill a block of two, a third one opens the next block, and a worker takes
the first. -/
theorem expiry_queue_integrity_three :
    ∃ (capabilities : NvmKvStoreCapabilities) (state : QueueState Unit),
      state.queue.map (·.map (·.iovLba)) = [[7]] ∧ state.handed.map (·.first) = [0] ∧
        QueueIntegrity capabilities state :=
  ⟨{ NvmKvStore.terabyteStore.capabilities with nvmMaxNumIovs := 2, iovsPositive := by decide },
    _, rfl, rfl, expiry_queue_integrity _
      [.update 5 ⟨1, 100, 64, 0, 0, 0⟩, .update 6 ⟨1, 100, 64, 0, 0, 0⟩,
        .update 7 ⟨1, 100, 64, 0, 0, 0⟩, .pop ()] _ rfl⟩

end Runs

section Duplicates

variable {ι : Type} {capabilities : NvmKvStoreCapabilities}

namespace QueueState

/-- No address is in two entries of the queue. -/
def NoneTwice (state : QueueState ι) : Prop := (state.queue.flatten.map (·.iovLba)).Nodup

/-- A call names no address of a block that it leaves as it is. -/
def LooksEverywhere (capabilities : NvmKvStoreCapabilities) (state : QueueState ι) :
    QueueStep ι → Prop
  | .update keyLoc _ => keyLoc ∉
      (BlockQueue.split capabilities.nvmMaxNumIovs state.queue).1.flatten.map (·.iovLba)
  | .pop _ => True

/-- A property of every state of a run, the first and the last one included. -/
def Throughout (capabilities : NvmKvStoreCapabilities) (holds : QueueState ι → Prop) :
    QueueState ι → List (QueueStep ι) → Prop
  | state, [] => holds state
  | state, first :: rest => holds state ∧ ∀ reached,
      state.step capabilities first = some reached → Throughout capabilities holds reached rest

/-- A condition on every step of a run, in the state before it. -/
def StepsMeet (capabilities : NvmKvStoreCapabilities)
    (condition : QueueState ι → QueueStep ι → Prop) : QueueState ι → List (QueueStep ι) → Prop
  | _, [] => True
  | state, first :: rest => condition state first ∧ ∀ reached,
      state.step capabilities first = some reached →
        StepsMeet capabilities condition reached rest

variable {state : QueueState ι}

/-- What holds throughout a run holds in its first state. -/
theorem Throughout.first {holds : QueueState ι → Prop} {steps : List (QueueStep ι)}
    (throughout : state.Throughout capabilities holds steps) : holds state := by
  cases steps with
  | nil => exact throughout
  | cons first rest => exact throughout.1

/-- A call keeps addresses single just when it names no address of a block that it leaves as
it is. -/
theorem noneTwice_update {keyLoc : Nat} {hdr : NvmKvHeader} (single : state.NoneTwice) :
    (state.update capabilities keyLoc hdr).NoneTwice ↔
      state.LooksEverywhere capabilities (.update keyLoc hdr) := by
  unfold NoneTwice at single
  have parts := BlockQueue.split_flatten capabilities.nvmMaxNumIovs state.queue
  unfold LooksEverywhere NoneTwice
  by_cases present : (BlockQueue.split capabilities.nvmMaxNumIovs state.queue).2.any
      fun vector => vector.iovLba = keyLoc
  · have queue : (state.update capabilities keyLoc hdr).queue = state.queue :=
      updateExpiryQueue_present present
    rw [queue]
    refine iff_of_true single ?_
    rw [← parts, List.map_append, List.nodup_append] at single
    intro front
    obtain ⟨vector, member, same⟩ := List.any_eq_true.mp present
    exact single.2.2 keyLoc front vector.iovLba (List.mem_map_of_mem member)
      (of_decide_eq_true same).symm
  · have queue : (state.update capabilities keyLoc hdr).queue.flatten = _ :=
      updateExpiryQueue_flatten present
    have absent : keyLoc ∉
        (BlockQueue.split capabilities.nvmMaxNumIovs state.queue).2.map (·.iovLba) := by
      intro back
      obtain ⟨vector, member, same⟩ := List.mem_map.mp back
      exact present (List.any_eq_true.mpr ⟨vector, member, decide_eq_true same⟩)
    rw [queue, List.map_append, List.nodup_append]
    constructor
    · rintro ⟨_, _, apart⟩ front
      refine apart keyLoc ?_ keyLoc List.mem_cons_self rfl
      rw [← parts, List.map_append]
      exact List.mem_append_left _ front
    · intro fresh
      refine ⟨single, List.nodup_singleton _, ?_⟩
      intro lba queued other added same
      rw [List.map_singleton, List.mem_singleton] at added
      rw [same, added, ← parts, List.map_append] at queued
      rcases List.mem_append.mp queued with front | back
      · exact fresh front
      · exact absent back

/-- A worker does not add an address. -/
theorem noneTwice_pop {worker : ι} {reached : QueueState ι} (single : state.NoneTwice)
    (stepped : state.step capabilities (.pop worker) = some reached) : reached.NoneTwice := by
  obtain ⟨⟨block, rest⟩, taken, same⟩ := Option.map_eq_some_iff.mp stepped
  obtain ⟨parts, _⟩ := BlockQueue.take_eq taken
  unfold NoneTwice at single
  rw [parts, List.flatten_cons, List.map_append] at single
  rw [← same]
  exact (List.nodup_append.mp single).2.1

/-- One step from a queue without duplicates. -/
theorem noneTwice_step {next : QueueStep ι} {reached : QueueState ι} (single : state.NoneTwice)
    (stepped : state.step capabilities next = some reached) :
    reached.NoneTwice ↔ state.LooksEverywhere capabilities next := by
  cases next with
  | update keyLoc hdr =>
    cases stepped
    exact noneTwice_update single
  | pop worker => exact iff_of_true (noneTwice_pop single stepped) trivial

/-- A run from such a queue. Induction follows the steps. A call never waits, so that the run goes
on to the state behind it. -/
theorem noneTwice_run {steps : List (QueueStep ι)} (single : state.NoneTwice) :
    state.Throughout capabilities NoneTwice steps ↔
      state.StepsMeet capabilities (LooksEverywhere capabilities) steps := by
  induction steps generalizing state with
  | nil => exact iff_of_true single trivial
  | cons first rest inductionHypothesis =>
    constructor
    · rintro ⟨_, further⟩
      have meets : state.LooksEverywhere capabilities first := by
        cases first with
        | update keyLoc hdr =>
          exact (noneTwice_update single).mp (further _ rfl).first
        | pop worker => trivial
      refine ⟨meets, ?_⟩
      intro reached stepped
      have next := (noneTwice_step single stepped).mpr meets
      exact (inductionHypothesis next).mp (further reached stepped)
    · rintro ⟨meets, further⟩
      refine ⟨single, ?_⟩
      intro reached stepped
      have next := (noneTwice_step single stepped).mpr meets
      exact (inductionHypothesis next).mpr (further reached stepped)

end QueueState

/-- In a run of calls and workers no address is ever queued twice just when no call of it names
an address of a block that it leaves as it is. -/
theorem queued_once_iff (capabilities : NvmKvStoreCapabilities) (steps : List (QueueStep ι)) :
    QueueState.empty.Throughout capabilities QueueState.NoneTwice steps ↔
      QueueState.empty.StepsMeet capabilities (QueueState.LooksEverywhere capabilities) steps :=
  QueueState.noneTwice_run List.nodup_nil

end Duplicates

/-- With one entry to a block, two calls that name one address queue it twice. -/
theorem queued_twice :
    ¬∀ (capabilities : NvmKvStoreCapabilities) (steps : List (QueueStep Unit)),
      QueueState.empty.Throughout capabilities QueueState.NoneTwice steps := by
  intro once
  have reached := once
    { NvmKvStore.terabyteStore.capabilities with nvmMaxNumIovs := 1, iovsPositive := by decide }
    [.update 5 ⟨1, 100, 64, 0, 0, 0⟩, .update 5 ⟨1, 100, 64, 0, 0, 0⟩]
  have twice := ((reached.2 _ rfl).2 _ rfl)
  have nodup : [5, 5].Nodup := twice
  revert nodup
  decide

end Nvmkv
