import Nvmkv.AddressDecoding
import Nvmkv.IterationEnd
import Nvmkv.IterationExact

/-!
# Iterating over all pools

The id that stands for all pools is accepted by the validation of `kv_begin`, and the loop of
`iter_over_pool` lets it pass the comparison of the pool bits. Two other checks do not know it.
Where ids are not hashed, its bits are all set, and the device is asked for addresses whose
pool bits are this number, which none are. Where they are hashed, the pool id in a header is
compared with it, and a header with this number in it is taken for an error before that.

So an iterator over all pools never stops at a range: `kv_begin` fails in every state.
-/

namespace Nvmkv

variable {ι : Type}

/-- A client's loop over the positions of an iterator: it notes the range and moves on, until
`kv_next` fails. -/
def visitLoop (store : NvmKvStore) (buffers : IterationBuffers) :
    (rounds : Nat) → PoolIterator → SystemM (List NvmBlockRange × Int)
  | 0, _ => liftStore neverReturns
  | rounds + 1, it => do
      let (moved, next) ← kvNext store buffers it
      match moved with
      | .error code => pure ([it.getIterLoc], code)
      | .ok () =>
          let (rest, code) ← visitLoop store buffers rounds next
          pure (it.getIterLoc :: rest, code)

/-- The ranges that a client visits from `kv_begin` on, and the code with which it ends. -/
def visitPool (store : NvmKvStore) (iter : LogicalIterRanges) (poolId : UInt32)
    (buffers : IterationBuffers) (allocated : Except Int KvBatchIterator) :
    SystemM (List NvmBlockRange × Int) := do
  match ← kvBegin store iter poolId buffers allocated with
  | .error code => pure ([], code)
  | .ok it => visitLoop store buffers (it.roundsLeft + 1) it

/-- The pairs that have not expired, of all pools in use. -/
def LivePairOfAny (store : NvmKvStore) (state : StoreState ι) (lba : Nat) : Prop :=
  ∃ poolId key, poolStatus state.inUse state.deleted poolId = .poolInUse ∧
    LivePair store state poolId key lba

/-- An iteration with the id of all pools comes to every such pair once. -/
def VisitsEveryPair (store : NvmKvStore) (iter : LogicalIterRanges) (thread : ι)
    (state : SystemState ι) (buffers : IterationBuffers)
    (allocated : Except Int KvBatchIterator) : Prop :=
  ∃ visited code after, (visitPool store iter poolIdAll buffers allocated).run
      (answerSystem store thread) state = some ((visited, code), after) ∧
    ∀ lba, LivePairOfAny store state.store lba →
      (visited.map NvmBlockRange.startLba).count lba = 1

namespace PoolIterator

variable {store : NvmKvStore} {thread : ι} {state : SystemState ι} {media : Media}
  {buf : Option Region} {it after : PoolIterator}

/-- No address passes the filter of all pools where ids are not hashed. -/
theorem poolRanges_all (unhashed : ¬store.poolsHashed) : poolRanges store media poolIdAll = [] := by
  rw [poolRanges, NvmKvStore.poolIdHash_all unhashed, List.filter_eq_nil_iff]
  intro range _ passes
  have low : range.startLba &&& store.poolMask ≤ store.poolMask := Nat.and_le_right
  have narrow := @NvmKvStore.poolBits_lt store
  obtain ⟨_, _, upper⟩ := store.sector_value_bits
  have sectors : 2 ^ store.valueBits ≤ 2 ^ 12 := Nat.pow_le_pow_right (by decide) upper
  have mask : store.poolMask = 2 ^ store.poolBits - 1 := rfl
  rw [if_neg (by decide), Media.passesFilter, decide_eq_true_iff] at passes
  omega

/-- An iterator over all pools stops at no range where ids are hashed. -/
theorem Over.stopAt_all (iterates : Over store poolIdAll it) (hashed : store.poolsHashed)
    (range : NvmBlockRange) : it.stopAt store media buf range ≠ some (.ok ()) := by
  have many : ¬store.maxPools ≤ 2 ^ store.poolBits := Nat.not_le_of_lt hashed
  have all : asInt it.poolId.toNat = -1 := by
    rw [iterates.pool]
    decide
  rw [stopAt, if_pos (Or.inr iterates.pool), if_neg many, all]
  cases buf with
  | none =>
    rw [if_pos rfl]
    intro stops
    cases stops
  | some buf =>
    rw [if_neg (Option.some_ne_none buf)]
    dsimp only
    split
    · intro stops
      cases stops
    · rename_i known
      rw [if_neg (by omega)]
      intro stops
      cases stops

/-- It moves on to no range that was ahead of it. -/
theorem Over.moved_all (iterates : Over store poolIdAll it) {verdict : Except Int Unit}
    (ahead : store.poolsHashed ∨ it.rest media = [])
    (moved : Moved store media buf it after verdict) : verdict ≠ .ok () := by
  rintro rfl
  cases moved with
  | stopped skipped _ split passed follows stops =>
    rcases ahead with hashed | nothing
    · exact iterates.stopAt_all hashed _ stops
    · rw [nothing] at split
      exact List.append_ne_nil_of_right_ne_nil _ (List.cons_ne_nil _ _) split.symm

end PoolIterator

variable {store : NvmKvStore} {thread : ι}

/-- An iteration over all pools does not begin. The id is a variable here, so that it is not
evaluated. -/
theorem run_kvBegin_all {poolId : UInt32} (all : poolId = poolIdAll) (iter : LogicalIterRanges)
    (state : SystemState ι) (buffers : IterationBuffers)
    (allocated : Except Int KvBatchIterator) :
    ∃ code, (kvBegin store iter poolId buffers allocated).run (answerSystem store thread)
      state = some (.error code, state) := by
  have accepted : decide (poolStatus state.store.inUse state.store.deleted poolId = .poolInUse ∨
      poolId = 0xFFFFFFFF) = true := decide_eq_true (Or.inr all)
  cases allocated with
  | error code =>
    refine ⟨code, ?_⟩
    simp only [kvBegin, Program.run_bind, run_liftStore, run_kvValidatePoolId, accepted,
      Option.map_some, Option.bind_some, Bool.not_true, Bool.false_eq_true, if_false,
      Program.run_pure]
  | ok memory =>
    obtain ⟨fresh, begun⟩ : ∃ fresh : PoolIterator,
        fresh = { PoolIterator.allocIter memory poolId (store.poolIdHash poolId) with
          toKvBatchIterator := (PoolIterator.allocIter memory poolId
            (store.poolIdHash poolId)).initIter store.usrData.startLba store.usrData.length
              iter.nvmMaxNumLogicalIterRanges store.poolMask } := ⟨_, rfl⟩
    have iterates : fresh.Over store poolId := by
      rw [begun]
      exact ⟨rfl, rfl, iter.positive⟩
    have ahead : store.poolsHashed ∨ fresh.rest state.store.media = [] := by
      by_cases hashed : store.poolsHashed
      · exact Or.inl hashed
      · refine Or.inr ?_
        rw [← @PoolIterator.poolRanges_all store state.store.media hashed, ← all, begun,
          PoolIterator.rest, poolRanges]
        dsimp only [PoolIterator.allocIter, KvBatchIterator.initIter]
        rw [Nat.zero_sub, List.range'_zero, List.map_nil, List.nil_append]
    have validFirst : (PoolIterator.allocIter memory poolId
        (store.poolIdHash poolId)).validateIter.run (answerSystem store thread) state =
        some (true, state) := by
      simp only [PoolIterator.validateIter, PoolIterator.allocIter, Program.run_bind,
        run_liftStore, run_checkPoolStatus, Option.map_some, Option.bind_some, all, or_true,
        decide_true, Program.run_pure]
    obtain ⟨verdict, after, ran, moved⟩ := @PoolIterator.Valid.run_kvNext ι store thread state
      fresh (Or.inr (iterates.pool.trans all)) iterates.portions buffers
    cases verdict with
    | ok _ => exact absurd rfl ((all ▸ iterates).moved_all ahead moved)
    | error code =>
      rw [kvNext, begun] at ran
      refine ⟨code, ?_⟩
      simp only [kvBegin, Program.run_bind, run_liftStore, run_kvValidatePoolId, accepted,
        Option.map_some, Option.bind_some, Bool.not_true, Bool.false_eq_true, if_false,
        validFirst, ran, Program.run_pure]

/-- So nothing is visited. -/
theorem run_visitPool_all (iter : LogicalIterRanges) (state : SystemState ι)
    (buffers : IterationBuffers) (allocated : Except Int KvBatchIterator) :
    ∃ code, (visitPool store iter poolIdAll buffers allocated).run (answerSystem store thread)
      state = some (([], code), state) := by
  obtain ⟨code, ran⟩ := @run_kvBegin_all ι store thread poolIdAll rfl iter state buffers
    allocated
  refine ⟨code, ?_⟩
  simp only [visitPool, Program.run_bind, ran, Option.bind_some, Program.run_pure]

/-- An iteration over all pools visits every pair that has not expired exactly when there is
none. -/
theorem all_pools_visited_iff (store : NvmKvStore) (iter : LogicalIterRanges) (thread : ι)
    (state : SystemState ι) (buffers : IterationBuffers)
    (allocated : Except Int KvBatchIterator) :
    VisitsEveryPair store iter thread state buffers allocated ↔
      ∀ lba, ¬LivePairOfAny store state.store lba := by
  obtain ⟨failure, nothing⟩ := @run_visitPool_all ι store thread iter state buffers allocated
  constructor
  · rintro ⟨visited, code, after, ran, every⟩ lba live
    rw [nothing] at ran
    cases ran
    exact absurd (every lba live) (by simp)
  · intro none
    exact ⟨[], failure, state, nothing, fun lba live => absurd live (none lba)⟩

/-- A pair of any pool lies where something is mapped. -/
theorem LivePairOfAny.mapped {state : StoreState ι} {lba : Nat}
    (live : LivePairOfAny store state lba) : (state.media lba).isSome = true := by
  obtain ⟨poolId, key, _, live⟩ := live
  have held := holds_iff.mpr live.matched
  rw [Option.isSome_iff_ne_none]
  exact mapped_of_holds (of_decide_eq_true live.accepted).1 held

/-- The one pair of a store is not visited, although its range is its own. -/
theorem lone_pair_not_visited :
    ¬∀ (store : NvmKvStore) (iter : LogicalIterRanges) (state : SystemState Unit)
      (buffers : IterationBuffers) (memory : KvBatchIterator),
      (∀ lba, LivePairOfAny store state.store lba → OwnRange store state.store.media lba) →
      VisitsEveryPair store iter () state buffers (.ok memory) := by
  intro visits
  obtain ⟨visited, code, after, ran, every⟩ := visits NvmKvStore.terabyteStore ⟨2, by decide⟩
    (copiesState false) sectorBuffers iteratorMemory
    (fun lba live => (copiesMedia_own live.mapped).1)
  obtain ⟨failure, nothing⟩ := @run_visitPool_all Unit NvmKvStore.terabyteStore ()
    ⟨2, by decide⟩ (copiesState false) sectorBuffers (.ok iteratorMemory)
  rw [nothing] at ran
  cases ran
  have once := every sharedLba ⟨0, laterKey, copiesState_used, copiesState_pair⟩
  exact absurd once (by simp)

end Nvmkv
