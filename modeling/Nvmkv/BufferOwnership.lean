import Nvmkv.BufferedCalls
import Nvmkv.CacheCoherence

/-!
# Who has a buffer

Over any interleaving of calls that take buffers, each buffer of the store manager's pool
is in the pool exactly once or one call has it, and a call uses a buffer only while it
has it. This holds as long as no call gets to one of the two branches that go wrong:
`kv_exists` finds its key, or `kv_get_current` loses its iterator in a round after one in
which it released a buffer.

The buffers in their places are the invariant. What a thread relies on is that the
others do not touch the buffer it has, so that the assertion of a call is which buffer it
has. The calls on the store, on the iterators and on its own buffer do not matter to that
assertion; only the taking and the releasing change it.
-/

namespace Nvmkv

variable {ι : Type}

/-- The call does not get to a branch that goes wrong with its buffer. -/
def StoreMgrOp.KeepsBuffers : StoreMgrOp → Prop
  | .takes _ => False
  | _ => True

/-- A call that uses a buffer is made by the call that has it. -/
def StoreMgrOp.OwnBuffer (pool : BufferPool ι) (thread : ι) : StoreMgrOp → Prop
  | .useBuf buff _ => pool.held buff = [thread]
  | _ => True

/-- The buffers are in their places, and nobody touches the buffer of another one. -/
def bufferDiscipline : Discipline StoreMgrOp (StoreMgrState ι) ι where
  invariant state := state.pool.AllInPlace
  rely thread before after := ∀ buff,
    after.pool.held buff = [thread] ↔ before.pool.held buff = [thread]
  allowed _ op _ := op.KeepsBuffers
  checked thread op state := op.OwnBuffer state.pool thread

/-- The calls that matter to no assertion on a thread's buffer. -/
def StoreMgrOp.LeavesBuffers (mine : Option Nat) : StoreMgrOp → Prop
  | .useBuf buff _ => mine = some buff
  | .system _ | .iterator _ | .setIterator _ _ | .freeIterator _ => True
  | _ => False

variable {store : NvmKvStore} {thread : ι}

/-- A thread that has a given buffer, as an assertion. -/
abbrev HasBuffer (thread : ι) (mine : Option Nat) (state : StoreMgrState ι) : Prop :=
  state.pool.Has thread mine

/-- What a thread has is up to itself. -/
theorem stable_has (mine : Option Nat) :
    bufferDiscipline.Stable thread (HasBuffer thread mine) :=
  fun _ _ _ _ relied has buff => (relied buff).trans (has buff)

/-- Writing to a buffer does not move it. -/
theorem BufferPool.useBuf_held (buff : Nat) (written : Option Region) (pool : BufferPool ι) :
    (pool.useBuf buff written).2.held = pool.held := by
  cases written <;> rfl

/-- What is written into a buffer moves none. -/
theorem BufferPool.AllInPlace.useBuf {pool : BufferPool ι} (inPlace : pool.AllInPlace)
    (buff : Nat) (written : Option Region) : (pool.useBuf buff written).2.AllInPlace := by
  cases written with
  | none => exact inPlace
  | some bytes => exact inPlace.same (fun _ => rfl) rfl rfl (Nat.le_refl _)

variable [DecidableEq ι]

/-- While a thread has a buffer, only taking and releasing matter. -/
theorem ignores_leavesBuffers (mine : Option Nat) :
    bufferDiscipline.Ignores (answerStoreMgr store) thread (StoreMgrOp.LeavesBuffers mine)
      (HasBuffer thread mine) where
  stable := stable_has mine
  kept := by
    intro op state leaves inPlace has
    have unmoved : ∀ reached : StoreMgrState ι, reached.pool.AllInPlace →
        reached.pool.held = state.pool.held → bufferDiscipline.invariant reached ∧
          (∀ other, other ≠ thread → bufferDiscipline.rely other state reached) ∧
          HasBuffer thread mine reached := by
      intro reached placed same
      refine ⟨placed, fun other _ buff => ?_, fun buff => ?_⟩
      · rw [same]
      · rw [same]
        exact has buff
    cases op with
    | system op =>
      refine ⟨trivial, fun _ reply => ?_⟩
      obtain ⟨answered, _, same⟩ := Option.map_eq_some_iff.mp reply
      obtain rfl := (Prod.mk.inj same).2
      exact unmoved _ inPlace rfl
    | iterator itId =>
      refine ⟨trivial, fun _ reply => ?_⟩
      obtain rfl := (Prod.mk.inj (Option.some.inj reply)).2
      exact unmoved _ inPlace rfl
    | setIterator itId it =>
      refine ⟨trivial, fun _ reply => ?_⟩
      obtain rfl := (Prod.mk.inj (Option.some.inj reply)).2
      exact unmoved _ inPlace rfl
    | freeIterator itId =>
      refine ⟨trivial, fun _ reply => ?_⟩
      obtain rfl := (Prod.mk.inj (Option.some.inj reply)).2
      exact unmoved _ inPlace rfl
    | useBuf buff written =>
      refine ⟨(has buff).mpr leaves, fun _ reply => ?_⟩
      obtain rfl := (Prod.mk.inj (Option.some.inj reply)).2
      exact unmoved _ (BufferPool.AllInPlace.useBuf inPlace buff written)
        (BufferPool.useBuf_held buff written state.pool)
    | getBuf size => exact leaves.elim
    | releaseBuf buff size => exact leaves.elim
    | takes branch => exact leaves.elim

section Parts

variable {α : Type} {mine : Option Nat}

/-- A program of the system alone asks for no buffer. -/
theorem leaves_onSystem (program : SystemM α) :
    (NvmKvStoreMgr.onSystem program).Calls (StoreMgrOp.LeavesBuffers mine) := by
  induction program with
  | done result => trivial
  | call op next inductionHypothesis => exact ⟨trivial, fun answer => inductionHypothesis answer⟩

/-- A program that uses a buffer asks for no other one, and releases none. -/
theorem leaves_usingBuf {buff : Nat} (program : StoreM α) :
    (NvmKvStoreMgr.usingBuf buff program).Calls (StoreMgrOp.LeavesBuffers (some buff)) := by
  induction program with
  | done result => exact ⟨rfl, fun _ => trivial⟩
  | call op next inductionHypothesis =>
    exact ⟨rfl, fun _ => ⟨trivial, fun answer => ⟨rfl, fun _ => inductionHypothesis answer⟩⟩⟩

/-- Nor does the validation of an iterator. -/
theorem leaves_validateIter (itId : Int) :
    (NvmKvStoreMgr.validateIter itId).Calls (StoreMgrOp.LeavesBuffers mine) := by
  refine Program.Calls.ite trivial (Program.Calls.bind ⟨trivial, fun _ => trivial⟩ fun it => ?_)
  cases it with
  | none => trivial
  | some it => exact leaves_onSystem _

/-- Nor the look-up of an iterator. -/
theorem leaves_lookUpIter (itId : Int) :
    (NvmKvStoreMgr.lookUpIter itId).Calls (StoreMgrOp.LeavesBuffers mine) :=
  Program.Calls.bind (leaves_validateIter itId) fun _ =>
    Program.Calls.ite ⟨trivial, fun _ => trivial⟩ trivial

/-- Nor the address that an iterator stands at. -/
theorem leaves_getIterLoc (itId : Int) :
    (NvmKvStoreMgr.getIterLoc itId).Calls (StoreMgrOp.LeavesBuffers mine) := by
  refine Program.Calls.bind (leaves_lookUpIter itId) fun it => ?_
  cases it <;> trivial

/-- Nor a step of an iterator. -/
theorem leaves_iterate (itId : Int) :
    (NvmKvStoreMgr.iterate itId).Calls (StoreMgrOp.LeavesBuffers mine) := by
  refine Program.Calls.bind (leaves_lookUpIter itId) fun it => ?_
  cases it with
  | none => trivial
  | some it => exact Program.Calls.bind (leaves_onSystem _) fun _ => ⟨trivial, fun _ => trivial⟩

/-- Moving an iterator on does not matter to the buffer. Induction is on the rounds. -/
theorem leaves_iterOverPoolLoop (poolIdBuf : Option Region) (itId : Int) (rounds : Nat) :
    (NvmKvStoreMgr.iterOverPoolLoop store poolIdBuf itId rounds).Calls
      (StoreMgrOp.LeavesBuffers mine) := by
  induction rounds with
  | zero => exact leaves_onSystem _
  | succ rounds inductionHypothesis =>
    refine Program.Calls.bind (leaves_iterate itId) fun iterated => ?_
    cases iterated with
    | error code => trivial
    | ok it =>
      refine Program.Calls.ite (Program.Calls.ite trivial ?_) inductionHypothesis
      refine Program.Calls.bind (leaves_onSystem _) fun foundPoolId => ?_
      exact Program.Calls.ite trivial (Program.Calls.ite trivial inductionHypothesis)

/-- Nor the walk of an iterator to the next pair of its pool. Induction is on the rounds. -/
theorem leaves_iterOverPool (poolIdBuf : Option Region) (itId : Int) (rounds : Nat) :
    (NvmKvStoreMgr.iterOverPool store poolIdBuf itId rounds).Calls
      (StoreMgrOp.LeavesBuffers mine) := by
  refine Program.Calls.bind (leaves_lookUpIter itId) fun it => ?_
  cases it with
  | none => trivial
  | some it => exact leaves_iterOverPoolLoop poolIdBuf itId rounds

end Parts

namespace NvmKvStoreMgr

variable {α : Type} {mine : Option Nat} {after : α → StoreMgrState ι → Prop}

/-- What leaves the buffers alone keeps the buffer that a call has. -/
theorem buffers_leaving {program : StoreMgrM α}
    (leaves : program.Calls (StoreMgrOp.LeavesBuffers mine)) :
    bufferDiscipline.Outline (answerStoreMgr store) thread program (HasBuffer thread mine)
      fun _ => HasBuffer thread mine :=
  (ignores_leavesBuffers mine).outline leaves

/-- So a thread that runs a program of the system has the buffer that it had. -/
theorem buffers_onSystem (program : SystemM α) :
    bufferDiscipline.Outline (answerStoreMgr store) thread (onSystem program)
      (HasBuffer thread mine) fun _ => HasBuffer thread mine :=
  buffers_leaving (leaves_onSystem program)

/-- A call works with the buffer it has. -/
theorem buffers_usingBuf {buff : Nat} (program : StoreM α) :
    bufferDiscipline.Outline (answerStoreMgr store) thread (usingBuf buff program)
      (HasBuffer thread (some buff)) fun _ => HasBuffer thread (some buff) :=
  buffers_leaving (leaves_usingBuf program)

/-- A thread keeps a buffer that it reads or writes. -/
theorem buffers_useBuf {buff : Nat} (written : Option Region) :
    bufferDiscipline.Outline (answerStoreMgr store) thread (ask (.useBuf buff written))
      (HasBuffer thread (some buff)) fun _ => HasBuffer thread (some buff) :=
  buffers_leaving (Program.Calls.perform rfl)

/-- What was answered may be used if it is a buffer. -/
theorem usable_eq {size : Nat} {answered : Option Nat × Nat}
    (large : answered.1 ≠ none → size ≤ answered.2) : usable size answered = answered.1 := by
  unfold usable
  by_cases small : answered.2 < size
  · rw [if_pos small]
    by_contra given
    have enough := large fun none => given none.symm
    omega
  · rw [if_neg small]

/-- A call that has no buffer takes one, and has it then. A buffer is as large as asked. -/
theorem buffers_getBuf {size : Nat} {rest : Option Nat × Nat → StoreMgrM α}
    (further : ∀ answered : Option Nat × Nat, (answered.1 ≠ none → size ≤ answered.2) →
      bufferDiscipline.Outline (answerStoreMgr store) thread (rest answered)
        (HasBuffer thread answered.1) after) :
    bufferDiscipline.Outline (answerStoreMgr store) thread (ask (.getBuf size) >>= rest)
      (HasBuffer thread none) after := by
  have taking : bufferDiscipline.Outline (answerStoreMgr store) thread (ask (.getBuf size))
      (HasBuffer thread none) fun answered state =>
        HasBuffer thread answered.1 state ∧ (answered.1 ≠ none → size ≤ answered.2) := by
    refine Discipline.Outline.perform (stable_has none) fun state inPlace has => ⟨trivial, ?_⟩
    intro answered reached _ reply
    obtain ⟨taken, got, same⟩ := Option.map_eq_some_iff.mp reply
    obtain ⟨rfl, rfl⟩ := Prod.mk.inj same
    obtain ⟨placed, mine, others, large⟩ := inPlace.getBuf got has
    exact ⟨placed, others, mine, large⟩
  exact taking.bind fun answered => .given (further answered)

/-- A call releases the buffer it has. -/
theorem buffers_releaseBuf {size : Nat} :
    bufferDiscipline.Outline (answerStoreMgr store) thread (ask (.releaseBuf mine size))
      (HasBuffer thread mine) fun _ => HasBuffer thread none := by
  refine Discipline.Outline.perform (stable_has mine) fun state inPlace has => ⟨trivial, ?_⟩
  intro answered reached _ reply
  obtain rfl := (Prod.mk.inj (Option.some.inj reply)).2
  obtain ⟨placed, nothing, others⟩ := inPlace.releaseBuf has
  exact ⟨placed, others, nothing⟩

/-- A call that is left out gets to no branch that goes wrong. -/
theorem buffers_takes {branch : StoreMgrBranch} {rest : Unit → StoreMgrM α} :
    bufferDiscipline.Outline (answerStoreMgr store) thread (ask (.takes branch) >>= rest)
      (HasBuffer thread mine) after := by
  have never : bufferDiscipline.Outline (answerStoreMgr store) thread (ask (.takes branch))
      (HasBuffer thread mine) fun _ state => HasBuffer thread mine state ∧ False :=
    Discipline.Outline.perform (stable_has mine) fun _ _ _ => ⟨trivial, fun _ _ kept => kept.elim⟩
  exact never.bind fun _ => .given fun impossible => impossible.elim

/-- A call that has ended has what it had. -/
theorem buffers_done {result : α} :
    bufferDiscipline.Outline (answerStoreMgr store) thread (pure result) (HasBuffer thread mine)
      fun _ => HasBuffer thread mine :=
  fun _ _ has => has

/-- A call that takes a buffer for its work has none at its end. -/
theorem buffers_withBuf (body : Region → StoreM (Except NvmErrorCode α)) :
    bufferDiscipline.Outline (answerStoreMgr store) thread (withBuf store body)
      (HasBuffer thread none) fun _ => HasBuffer thread none := by
  refine buffers_getBuf fun answered large => ?_
  rw [usable_eq large]
  obtain ⟨given, size⟩ := answered
  cases given with
  | none => exact buffers_done
  | some buff =>
    refine (buffers_useBuf none).bind fun buf => ?_
    refine (buffers_usingBuf _).bind fun result => ?_
    exact buffers_releaseBuf.bind fun _ => buffers_done

section Lookups

variable (poolId : UInt32) (key : List UInt8)

/-- `kv_get` gives back the buffer that it takes. -/
theorem buffers_kvGet (value : Memory) (valueLen : Nat) (readExact : Bool) :
    bufferDiscipline.Outline (answerStoreMgr store) thread
      (kvGet store poolId key value valueLen readExact) (HasBuffer thread none)
      fun _ => HasBuffer thread none := by
  refine (buffers_onSystem _).bind fun known => ?_
  exact .ite (fun _ => buffers_done) fun _ => buffers_withBuf _

/-- So does `kv_get_key_info`. -/
theorem buffers_kvGetKeyInfo :
    bufferDiscipline.Outline (answerStoreMgr store) thread (kvGetKeyInfo store poolId key)
      (HasBuffer thread none) fun _ => HasBuffer thread none := by
  refine (buffers_onSystem _).bind fun known => ?_
  exact .ite (fun _ => buffers_done) fun _ => buffers_withBuf _

/-- An existence check that does not find its key is done with its buffer when it
releases it. -/
theorem buffers_kvExists :
    bufferDiscipline.Outline (answerStoreMgr store) thread (kvExists store poolId key)
      (HasBuffer thread none) fun _ => HasBuffer thread none := by
  refine (buffers_onSystem _).bind fun known => ?_
  refine .ite (fun _ => buffers_done) fun _ => ?_
  refine buffers_getBuf fun answered large => ?_
  rw [usable_eq large]
  obtain ⟨given, size⟩ := answered
  cases given with
  | none => exact buffers_done
  | some buff =>
    refine (buffers_useBuf none).bind fun buf => ?_
    refine (buffers_usingBuf _).bind fun found => ?_
    refine buffers_releaseBuf.bind fun _ => ?_
    split
    · exact buffers_done
    · exact buffers_done
    · exact buffers_takes

end Lookups

section Deletes

variable (poolId : UInt32) (key : List UInt8) (allocated : Bool)

/-- The end of a delete releases the buffer that the delete has, if any. -/
theorem buffers_endDelete (acquired : Option (Nat × Nat)) (inserted : Option Nat)
    (retCode : Except NvmErrorCode Unit) :
    bufferDiscipline.Outline (answerStoreMgr store) thread (endDelete acquired inserted retCode)
      (HasBuffer thread (acquired.map Prod.fst)) fun _ => HasBuffer thread none := by
  cases acquired with
  | none =>
    cases inserted with
    | none => exact buffers_done
    | some keyHash => exact (buffers_onSystem _).bind fun _ => buffers_done
  | some acquired =>
    refine buffers_releaseBuf.bind fun _ => ?_
    cases inserted with
    | none => exact buffers_done
    | some keyHash => exact (buffers_onSystem _).bind fun _ => buffers_done

/-- A delete that trims ends with it. -/
theorem buffers_kvDeleteTrim (acquired : Option (Nat × Nat)) (keyHash : Nat) :
    bufferDiscipline.Outline (answerStoreMgr store) thread
      (kvDeleteTrim store allocated acquired keyHash)
      (HasBuffer thread (acquired.map Prod.fst)) fun _ => HasBuffer thread none :=
  (buffers_onSystem _).bind fun _ => buffers_endDelete _ _ _

/-- So does a delete that reads its pair again behind the safe list. -/
theorem buffers_kvDeleteAgain (keyHash : Nat) (acquired : Nat × Nat) :
    bufferDiscipline.Outline (answerStoreMgr store) thread
      (kvDeleteAgain store poolId key allocated keyHash acquired)
      (HasBuffer thread (some acquired.1)) fun _ => HasBuffer thread none := by
  refine (buffers_useBuf none).bind fun buf => ?_
  refine (buffers_usingBuf _).bind fun read => ?_
  cases read with
  | error code => exact buffers_endDelete (some acquired) _ _
  | ok read => exact buffers_kvDeleteTrim allocated (some acquired) _

/-- After waiting a delete goes on with the buffer it has, or with one that it takes
then. -/
theorem buffers_kvDeleteAt (keyHash : Nat) (acquired : Option (Nat × Nat)) :
    bufferDiscipline.Outline (answerStoreMgr store) thread
      (kvDeleteAt store poolId key allocated keyHash acquired)
      (HasBuffer thread (acquired.map Prod.fst)) fun _ => HasBuffer thread none := by
  refine (buffers_onSystem _).bind fun wait => ?_
  refine .ite (fun _ => ?_) fun _ => buffers_kvDeleteTrim allocated acquired keyHash
  cases acquired with
  | some acquired => exact buffers_kvDeleteAgain poolId key allocated keyHash acquired
  | none =>
    refine buffers_getBuf fun answered large => ?_
    rw [usable_eq large]
    obtain ⟨given, size⟩ := answered
    cases given with
    | none => exact buffers_endDelete none _ _
    | some buff => exact buffers_kvDeleteAgain poolId key allocated keyHash (buff, size)

/-- A delete that searches takes a buffer first, or has nothing to release. -/
theorem buffers_kvDeleteSearch :
    bufferDiscipline.Outline (answerStoreMgr store) thread
      (kvDeleteSearch store poolId key allocated) (HasBuffer thread none)
      fun _ => HasBuffer thread none := by
  refine buffers_getBuf fun answered large => ?_
  rw [usable_eq large]
  obtain ⟨given, size⟩ := answered
  cases given with
  | none => exact buffers_endDelete none none _
  | some buff =>
    refine (buffers_useBuf none).bind fun buf => ?_
    refine (buffers_usingBuf _).bind fun read => ?_
    cases read with
    | error code => exact buffers_endDelete (some (buff, size)) none _
    | ok read => exact buffers_kvDeleteAt poolId key allocated _ (some (buff, size))

/-- So `kv_delete` gives back the buffer that it takes, on every path. -/
theorem buffers_kvDelete :
    bufferDiscipline.Outline (answerStoreMgr store) thread (kvDelete store poolId key allocated)
      (HasBuffer thread none) fun _ => HasBuffer thread none := by
  refine (buffers_onSystem _).bind fun known => ?_
  refine .ite (fun _ => buffers_done) fun _ => ?_
  refine .ite (fun _ => ?_) fun _ => buffers_kvDeleteSearch poolId key allocated
  refine (buffers_onSystem _).bind fun entry => ?_
  cases entry with
  | some entry => exact buffers_kvDeleteAt poolId key allocated entry.lba none
  | none => exact buffers_kvDeleteSearch poolId key allocated

end Deletes

section Puts

variable (poolId : UInt32) {pair : NvmKvIovec} (iovec : Option (Nat → NvmIovec))

/-- A pair that was accepted needs a buffer of at least one byte. -/
theorem bufLen_positive
    (accepted : (kvValidateKey pair.key && kvValidateValue store false pair.valueLen) = true) :
    0 < (writeLayout store.capabilities pair.key.length pair.value pair.valueLen).bufLen
      store.capabilities := by
  obtain ⟨key, value⟩ := Bool.and_eq_true_iff.mp accepted
  obtain ⟨_, short⟩ := of_decide_eq_true key
  obtain ⟨_, bounded, _⟩ := of_decide_eq_true value
  have positive := store.sector_positive
  have sector := store.capabilities.sector_upper
  have header : mKvHeaderSize = 40 := rfl
  have rounded : ∀ length, 0 < length → length < 2 ^ 63 →
      0 < nvmKvRoundUptoBlk length store.capabilities.nvmSectorSize := fun length more small =>
    Nat.lt_of_lt_of_le more (store.round_upto_sector_bounds length small).1
  unfold nvmKvMaxKeySize at short
  unfold nvmKvMaxValueSize at bounded
  unfold WriteLayout.bufLen
  split_ifs with user
  · exact positive
  · rw [writeLayout] at user ⊢
    dsimp only at user ⊢
    rw [if_neg user]
    apply rounded
    · split_ifs <;> omega
    · split_ifs <;> omega

/-- What is returned with the body of a put is what the call has. A buffer has a size. -/
def PutBuffer (thread : ι) (result : PutBody × Option Nat × Nat) (state : StoreMgrState ι) :
    Prop :=
  HasBuffer thread result.2.1 state ∧ (result.2.1 ≠ none → result.2.2 ≠ 0)

/-- The body of a put that has taken no buffer returns none. -/
theorem buffers_noBuffer {body : PutBody} :
    bufferDiscipline.Outline (answerStoreMgr store) thread
      (pure (body, none, 0) : StoreMgrM (PutBody × Option Nat × Nat)) (HasBuffer thread none)
      (PutBuffer thread) :=
  fun _ _ has => ⟨has, fun impossible => absurd rfl impossible⟩

/-- The placing of a put returns the buffer that it has taken, which is large enough for its sectors
and so has a size. -/
theorem buffers_kvPutPlace (context : NvmKvCacheContext) (existsInCache : Bool)
    (accepted : (kvValidateKey pair.key && kvValidateValue store false pair.valueLen) = true) :
    bufferDiscipline.Outline (answerStoreMgr store) thread
      (kvPutPlace store poolId pair iovec context existsInCache) (HasBuffer thread none)
      (PutBuffer thread) := by
  have positive := bufLen_positive accepted
  refine .ite (fun _ => buffers_noBuffer) fun _ => ?_
  refine buffers_getBuf fun answered large => ?_
  rw [usable_eq large]
  obtain ⟨given, size⟩ := answered
  cases given with
  | none => exact fun _ _ has => ⟨has, fun impossible => absurd rfl impossible⟩
  | some buff =>
    have enough := large (Option.some_ne_none buff)
    refine (buffers_useBuf none).bind fun buf => ?_
    refine (buffers_usingBuf _).bind fun body => ?_
    exact fun _ _ has => ⟨has, fun _ => by dsimp only at enough ⊢; omega⟩

/-- So does the whole body of a put. -/
theorem buffers_kvPutBody :
    bufferDiscipline.Outline (answerStoreMgr store) thread (kvPutBody store poolId pair iovec)
      (HasBuffer thread none) (PutBuffer thread) := by
  refine (buffers_onSystem _).bind fun known => ?_
  refine .ite (fun _ => buffers_noBuffer) fun refused => ?_
  have accepted : (kvValidateKey pair.key && kvValidateValue store false pair.valueLen) = true := by
    simp only [Bool.or_eq_true, Bool.not_eq_true', not_or, Bool.not_eq_false] at refused
    rw [refused.1.2, refused.2]
    rfl
  refine .ite (fun _ => ?_) fun _ => buffers_kvPutPlace poolId iovec _ _ accepted
  refine (buffers_onSystem _).bind fun found => ?_
  refine .ite (fun _ => ?_) fun _ => buffers_kvPutPlace poolId iovec _ _ accepted
  refine .ite (fun _ => buffers_noBuffer) fun _ => ?_
  refine .ite (fun _ => ?_) fun _ => buffers_kvPutPlace poolId iovec _ _ accepted
  refine (buffers_onSystem _).bind fun wait => ?_
  refine .ite (fun _ => ?_) fun _ => buffers_kvPutPlace poolId iovec _ _ accepted
  exact (buffers_onSystem _).bind fun _ => buffers_kvPutPlace poolId iovec _ _ accepted

/-- And `kv_put` gives back what its body returns. -/
theorem buffers_kvPut :
    bufferDiscipline.Outline (answerStoreMgr store) thread (kvPut store poolId pair iovec)
      (HasBuffer thread none) fun _ => HasBuffer thread none := by
  refine (buffers_kvPutBody poolId iovec).bind fun result => ?_
  obtain ⟨body, buf, bufLen⟩ := result
  refine .given fun sized => ?_
  have unlocks : bufferDiscipline.Outline (answerStoreMgr store) thread
      (if body.insertLba then do
          let _ ← onStore (deleteLbaFromSafeList body.keyHashVal)
          pure (body.retCode.map fun _ => pair.valueLen)
        else pure (body.retCode.map fun _ => pair.valueLen))
      (HasBuffer thread none) fun _ => HasBuffer thread none :=
    .ite (fun _ => (buffers_onSystem _).bind fun _ => buffers_done) fun _ => buffers_done
  refine .ite (fun _ => buffers_releaseBuf.bind fun _ => unlocks) fun unsized => ?_
  have nothing : buf = none := by
    by_contra some
    exact sized some (not_not.mp unsized)
  subst nothing
  exact unlocks

end Puts

section Iterators

variable (poolIdBuf : Option Region) (itId : Int) (valueLen : Nat)

/-- The end of `kv_get_current` releases the buffer that the call has, if any. -/
theorem buffers_endCurrent (acquired : Option (Option Nat × Nat))
    (result : Except Int CurrentPair) :
    bufferDiscipline.Outline (answerStoreMgr store) thread (endCurrent acquired result)
      (HasBuffer thread (acquired.bind Prod.fst)) fun _ => HasBuffer thread none := by
  cases acquired with
  | none => exact buffers_done
  | some acquired => exact buffers_releaseBuf.bind fun _ => buffers_done

/-- A round of the loop starts with no buffer, whatever the loop takes for its own. It ends
with none, or the loop goes on with none. Induction is on the rounds. -/
theorem buffers_getCurrentLoop (rounds : Nat) (acquired : Option (Option Nat × Nat))
    (value : Memory) :
    bufferDiscipline.Outline (answerStoreMgr store) thread
      (getCurrentLoop store poolIdBuf itId valueLen rounds acquired value)
      (HasBuffer thread none) fun _ => HasBuffer thread none := by
  induction rounds generalizing acquired value with
  | zero => exact buffers_onSystem _
  | succ rounds inductionHypothesis =>
    refine (buffers_leaving (leaves_getIterLoc itId)).bind fun located => ?_
    cases located with
    | error code =>
      cases acquired with
      | none => exact buffers_done
      | some acquired => exact buffers_takes
    | ok range =>
      refine buffers_getBuf fun answered large => ?_
      rw [usable_eq large]
      obtain ⟨given, size⟩ := answered
      cases given with
      | none =>
        cases acquired with
        | none => exact buffers_done
        | some acquired => exact buffers_endCurrent (some (none, size)) _
      | some buff =>
        refine (buffers_useBuf none).bind fun buf => ?_
        refine (buffers_usingBuf _).bind fun round => ?_
        obtain ⟨ends, value⟩ := round
        cases ends with
        | found pair => exact buffers_endCurrent (some (some buff, size)) _
        | failed code => exact buffers_endCurrent (some (some buff, size)) _
        | passed =>
          refine (buffers_leaving (leaves_iterOverPool poolIdBuf itId rounds)).bind fun moved => ?_
          cases moved with
          | error code => exact buffers_endCurrent (some (some buff, size)) _
          | ok _ => exact buffers_releaseBuf.bind fun _ => inductionHypothesis _ value

/-- So `kv_get_current` gives back the buffer that it takes. Induction is on the pairs passed. -/
theorem buffers_kvGetCurrent (rounds : Nat) (value : Memory) :
    bufferDiscipline.Outline (answerStoreMgr store) thread
      (kvGetCurrent store poolIdBuf itId valueLen rounds value) (HasBuffer thread none)
      fun _ => HasBuffer thread none :=
  .ite (fun _ => buffers_getCurrentLoop poolIdBuf itId valueLen rounds none value)
    fun _ => buffers_done

/-- The end of an iteration takes no buffer. -/
theorem buffers_kvIterationEnd :
    bufferDiscipline.Outline (answerStoreMgr store) thread (kvIterationEnd itId)
      (HasBuffer thread none) fun _ => HasBuffer thread none := by
  refine (buffers_leaving (leaves_validateIter itId)).bind fun valid => ?_
  refine .ite (fun _ => ?_) fun _ => buffers_done
  have freed : (ask (.freeIterator itId)).Calls (StoreMgrOp.LeavesBuffers none) :=
    Program.Calls.perform trivial
  exact (buffers_leaving freed).bind fun _ => buffers_done

end Iterators

end NvmKvStoreMgr

/-- Every call ends without a buffer, as it started. -/
theorem buffers_call (call : StoreMgrCall) :
    bufferDiscipline.Outline (answerStoreMgr store) thread (call.program store)
      (HasBuffer thread none) fun _ => HasBuffer thread none := by
  cases call with
  | kvPut poolId pair iovec =>
    exact (NvmKvStoreMgr.buffers_kvPut poolId iovec).bind fun _ => NvmKvStoreMgr.buffers_done
  | kvGet poolId key value valueLen readExact =>
    exact (NvmKvStoreMgr.buffers_kvGet poolId key value valueLen readExact).bind
      fun _ => NvmKvStoreMgr.buffers_done
  | kvExists poolId key =>
    exact (NvmKvStoreMgr.buffers_kvExists poolId key).bind fun _ => NvmKvStoreMgr.buffers_done
  | kvGetKeyInfo poolId key =>
    exact (NvmKvStoreMgr.buffers_kvGetKeyInfo poolId key).bind fun _ => NvmKvStoreMgr.buffers_done
  | kvGetCurrent poolIdBuf itId valueLen rounds value =>
    exact (NvmKvStoreMgr.buffers_kvGetCurrent poolIdBuf itId valueLen rounds value).bind
      fun _ => NvmKvStoreMgr.buffers_done
  | kvDelete poolId key allocated =>
    exact (NvmKvStoreMgr.buffers_kvDelete poolId key allocated).bind
      fun _ => NvmKvStoreMgr.buffers_done
  | kvIterationEnd itId =>
    exact (NvmKvStoreMgr.buffers_kvIterationEnd itId).bind fun _ => NvmKvStoreMgr.buffers_done
  | kvPoolDelete poolId =>
    exact (NvmKvStoreMgr.buffers_onSystem _).bind fun _ => NvmKvStoreMgr.buffers_done
  | other program => exact NvmKvStoreMgr.buffers_onSystem program

/-- Every buffer is in its place, nobody has memory that was freed, and a thread that is
about to use a buffer has it. -/
structure BuffersOwned (config : StoreMgrConfig ι) : Prop where
  placed : ∀ buff, config.shared.pool.allocated buff = true → config.shared.pool.InPlace buff
  freed : ∀ buff, config.shared.pool.allocated buff = false →
    config.shared.pool.copies buff = 0 ∧ config.shared.pool.held buff = []
  used : ∀ thread buff written next,
    config.threads thread = .call (.useBuf buff written) next →
      config.shared.pool.held buff = [thread]

/-- In every interleaving in which no call gets to a branch that goes wrong, the buffers
are owned. -/
theorem buffers_owned (store : NvmKvStore) (system : SystemState ι)
    (iterators : Int → Option PoolIterator) (numBuffers bufferLimit : Nat)
    (memory : Nat → Bool) (contents : Nat → Region) (calls : ι → StoreMgrCall)
    {config : StoreMgrConfig ι}
    (reached : Config.Reachable (answerStoreMgr store) (fun _ op _ => op.KeepsBuffers)
      (startStoreMgr store
        ⟨system, .initialized numBuffers bufferLimit memory contents, iterators⟩ calls) config) :
    BuffersOwned config := by
  have initial := @BufferPool.initialized_inPlace ι numBuffers bufferLimit memory contents
  have placed : ∀ thread, Discipline.Placed bufferDiscipline (answerStoreMgr store)
      (fun thread _ => HasBuffer thread none) (startStoreMgr store
        ⟨system, .initialized numBuffers bufferLimit memory contents, iterators⟩ calls)
      thread := by
    intro thread
    refine ⟨HasBuffer thread none, fun buff => ?_, buffers_call (calls thread)⟩
    exact ⟨nofun, nofun⟩
  have final : ∀ (thread : ι) (_ : Unit), bufferDiscipline.Stable thread (HasBuffer thread none) :=
    fun thread _ => stable_has none
  have inPlace := (Discipline.sound initial placed final reached).1
  refine ⟨inPlace.placed, inPlace.nowhere, ?_⟩
  intro thread buff written next pending
  exact Discipline.sound_checked initial placed final reached pending

section TwoLookups

/-- A program of the store runs on the store alone. -/
theorem NvmKvStoreMgr.run_onStore {α : Type} {program : StoreM α} {state : StoreMgrState ι}
    {result : α}
    {after : StoreState ι}
    (ran : program.run (answer store thread) state.system.store = some (result, after)) :
    (NvmKvStoreMgr.onStore program).run (answerStoreMgr store thread) state =
      some (result, { state with system := { state.system with store := after } }) := by
  induction program generalizing state with
  | done returned =>
    obtain ⟨rfl, rfl⟩ := Prod.mk.inj (Option.some.inj ran)
    rfl
  | call op next inductionHypothesis =>
    rw [Program.run_call] at ran
    obtain ⟨⟨answered, between⟩, reply, further⟩ := Option.bind_eq_some_iff.mp ran
    have stepped : answerStoreMgr store thread (.system (.store op)) state =
        some (answered, { state with system := { state.system with store := between } }) := by
      rw [answerStoreMgr, answerSystem, reply]
      rfl
    change (Program.call (StoreMgrOp.system (.store op)) fun answered =>
      NvmKvStoreMgr.onStore (next answered)).run (answerStoreMgr store thread) state = _
    rw [Program.run_call, stepped]
    exact inductionHypothesis answered further

/-- A program of the store that works with a buffer does on the store what it does alone,
and writes to the buffer. -/
theorem NvmKvStoreMgr.run_usingBuf {α : Type} {buff : Nat} {program : StoreM α}
    {state : StoreMgrState ι}
    {result : α} {after : StoreState ι}
    (ran : program.run (answer store thread) state.system.store = some (result, after)) :
    ∃ contents, (NvmKvStoreMgr.usingBuf buff program).run (answerStoreMgr store thread) state =
      some (result, ⟨{ state.system with store := after },
        { state.pool with contents := contents }, state.iterators⟩) := by
  induction program generalizing state with
  | done returned =>
    obtain ⟨rfl, rfl⟩ := Prod.mk.inj (Option.some.inj ran)
    exact ⟨state.pool.contents, rfl⟩
  | call op next inductionHypothesis =>
    rw [Program.run_call] at ran
    obtain ⟨⟨answered, between⟩, reply, further⟩ := Option.bind_eq_some_iff.mp ran
    have written : ∀ (state : StoreMgrState ι) (bytes : Option Region), ∃ region contents,
        answerStoreMgr store thread (.useBuf buff bytes) state =
          some (region, { state with pool := { state.pool with contents := contents } }) := by
      intro state bytes
      cases bytes <;> exact ⟨_, _, rfl⟩
    obtain ⟨first, given, wrote⟩ := written state (NvmKvStoreMgr.given op)
    have stepped : answerStoreMgr store thread (.system (.store op))
        { state with pool := { state.pool with contents := given } } =
        some (answered, ⟨{ state.system with store := between },
          { state.pool with contents := given }, state.iterators⟩) := by
      rw [answerStoreMgr, answerSystem, reply]
      rfl
    obtain ⟨second, left, read⟩ := written ⟨{ state.system with store := between },
      { state.pool with contents := given }, state.iterators⟩ (NvmKvStoreMgr.left op answered)
    obtain ⟨contents, later⟩ := @inductionHypothesis answered
      ⟨{ state.system with store := between }, { state.pool with contents := left },
        state.iterators⟩ further
    refine ⟨contents, ?_⟩
    change (Program.call (StoreMgrOp.useBuf buff (NvmKvStoreMgr.given op)) fun _ =>
      Program.call (StoreMgrOp.system (.store op)) fun answered =>
        Program.call (StoreMgrOp.useBuf buff (NvmKvStoreMgr.left op answered)) fun _ =>
          NvmKvStoreMgr.usingBuf buff (next answered)).run (answerStoreMgr store thread) state = _
    rw [Program.run_call, wrote, Option.bind_some, Program.run_call, stepped, Option.bind_some,
      Program.run_call, read, Option.bind_some]
    exact later

/-- The store in which a pair is stored, with its pool manager. -/
def storedSystem : SystemState Bool where
  store := storedPair
  mgr := .created fun _ => .zero
  poolMedia := ⟨.zero, .zero, fun _ => .zero, 0⟩

/-- One thread asks whether the key of the pair exists, and another one for the
information on it. -/
def askTwice (thread : Bool) : StoreMgrCall :=
  if thread then .kvGetKeyInfo 0 [97] else .kvExists 0 [97]

/-- A manager with one buffer, about to make both calls. -/
def twoLookups : StoreMgrConfig Bool :=
  startStoreMgr cachingTerabyte
    ⟨storedSystem, .initialized 1 4096 (fun _ => true) fun _ _ => 0, fun _ => none⟩ askTwice

/-- The default pool is in use for both calls. -/
theorem validates_twoLookups (thread : Bool) (pool : BufferPool Bool) :
    (NvmKvStoreMgr.onStore (kvValidatePoolId 0)).run (answerStoreMgr cachingTerabyte thread)
      ⟨storedSystem, pool, fun _ => none⟩ = some (true, ⟨storedSystem, pool, fun _ => none⟩) :=
  @NvmKvStoreMgr.run_onStore _ cachingTerabyte thread _ _ _ ⟨storedSystem, pool, fun _ => none⟩ _ _
    (run_kvValidatePoolId cachingTerabyte thread storedPair 0)

/-- The existence check finds the pair. -/
theorem finds_storedPair (buf : Region) : ∃ hdr,
    (kvRangeExistProbes cachingTerabyte 0 [97] (cachingTerabyte.probes 0 [97]) buf).run
      (answer cachingTerabyte false) storedPair = some (.ok hdr, storedPair) := by
  have probed := @run_kvRangeExistProbes _ cachingTerabyte false storedPair 0 [97] (by decide)
    (by decide) (cachingTerabyte.probes 0 [97]) buf
  have found := storedPair_lookup
  rw [lookupLba] at found
  rw [found] at probed
  exact ⟨_, probed⟩

/-- The pool of that manager while the existence check has the buffer. -/
def takenPool : BufferPool Bool :=
  { (BufferPool.initialized 1 4096 (fun _ => true) fun _ _ => 0 : BufferPool Bool) with
    buffers := []
    held := Function.update (fun _ => []) 0 [false] }

/-- The existence check takes the only buffer, finds the pair, and releases the buffer. It
is about to look at the header in the buffer then. -/
theorem exists_releases : ∃ contents,
    Program.Moves (answerStoreMgr cachingTerabyte false)
      (NvmKvStoreMgr.kvExists cachingTerabyte 0 [97]) twoLookups.shared
      (.call (.useBuf 0 none) fun hdr => pure (.ok (some (keyInfoOf (some 0) (readHeader hdr)))))
      ⟨storedSystem, { takenPool with contents := contents }.releaseBuf false (some 0) 4096,
        fun _ => none⟩ := by
  obtain ⟨hdr, finds⟩ := finds_storedPair fun _ => 0
  obtain ⟨contents, worked⟩ := @NvmKvStoreMgr.run_usingBuf _ cachingTerabyte false _ _ 0 _
    ⟨storedSystem, takenPool, fun _ => none⟩ _ _ finds
  refine ⟨contents, .seq (validates_twoLookups false _) ?_⟩
  have got : (NvmKvStoreMgr.ask (.getBuf cachingTerabyte.sectorSize)).run
      (answerStoreMgr cachingTerabyte false) twoLookups.shared =
      some ((some 0, 4096), ⟨storedSystem, takenPool, fun _ => none⟩) := rfl
  exact .seq got (.seq rfl (.seq worked (.seq rfl (.seq rfl (.still _ _)))))

/-- The existence check has found the pair and released its buffer. Before it looks at the
header there, the other call takes the buffer. -/
theorem exists_reads_released :
    ¬∀ (store : NvmKvStore) (system : SystemState Bool) (iterators : Int → Option PoolIterator)
      (numBuffers bufferLimit : Nat) (memory : Nat → Bool) (contents : Nat → Region)
      (calls : Bool → StoreMgrCall) (config : StoreMgrConfig Bool),
      Config.Reachable (answerStoreMgr store) (fun _ _ _ => True)
        (startStoreMgr store
          ⟨system, .initialized numBuffers bufferLimit memory contents, iterators⟩ calls)
        config → BuffersOwned config := by
  intro always
  have begun : Config.Reachable (answerStoreMgr cachingTerabyte) (fun _ _ _ => True) twoLookups
      twoLookups := .start
  have begun : Config.Reachable (answerStoreMgr cachingTerabyte) (fun _ _ _ => True) twoLookups
      twoLookups := .start
  obtain ⟨contents, releases⟩ := exists_releases
  have released := begun.moves false rfl (releases.bind _)
  obtain ⟨pool, same⟩ : ∃ pool,
      pool = { takenPool with contents := contents }.releaseBuf false (some 0) 4096 := ⟨_, rfl⟩
  rw [← same] at released
  have takes : pool.getBuf true cachingTerabyte.sectorSize = some ((some 0, 4096),
      { pool with
        buffers := []
        held := Function.update pool.held 0 (true :: pool.held 0) }) := by
    rw [same]
    rfl
  have taken := (released.advance true PoolStatus.poolInUse _ rfl trivial rfl).advance true
    (some 0, 4096) ⟨storedSystem, _, fun _ => none⟩ rfl trivial (by
      rw [answerStoreMgr]
      exact congrArg (Option.map _) takes)
  have owned := (always _ _ _ _ _ _ _ _ _ taken).used false 0 none _ rfl
  change Function.update pool.held 0 (true :: pool.held 0) 0 = [false] at owned
  rw [Function.update_self] at owned
  exact Bool.noConfusion (List.cons.inj owned).1

/-- After the existence check has taken the only buffer it has the buffer. -/
theorem buffers_owned_taken : ∃ config : StoreMgrConfig Bool,
    BuffersOwned config ∧ config.shared.pool.held 0 = [false] := by
  have begun : Config.Reachable (answerStoreMgr cachingTerabyte) (fun _ op _ => op.KeepsBuffers)
      twoLookups twoLookups := .start
  have taken := (begun.advance false PoolStatus.poolInUse _ rfl trivial rfl).advance false
    (some 0, 4096) ⟨storedSystem, takenPool, fun _ => none⟩ rfl (by exact trivial) rfl
  exact ⟨_, buffers_owned cachingTerabyte storedSystem (fun _ => none) 1 4096 (fun _ => true)
    (fun _ _ => 0) askTwice taken, rfl⟩

end TwoLookups

end Nvmkv
