import Nvmkv.FindablePlacement
import Nvmkv.SameKeyPuts
import Nvmkv.UndisturbedCalls

/-!
# Two puts at the same time

What holds of two puts in every interleaving of their calls: neither covers a sector that the
other one wrote under another key, and when both name one absent key that they are not to
replace, at most one succeeds. Both rest on the address that a put took without waiting: the
put does not read it again, and when it was written since the put had asked for it, its pair
is written over. So two puts of different keys with the same first address may both succeed,
and one of the pairs is lost.
-/

namespace Nvmkv

variable {ι : Type}

namespace PutSystem

variable {system : PutSystem ι}

/-- In one pool the pairs stay within their slots. -/
theorem apart_of_pool {poolId : UInt32} (pool : ∀ thread, (system.calls thread).poolId = poolId)
    (lengths : ∀ thread, ∀ lba ∈ (system.calls thread).probes system.store,
      (system.calls thread).Holds system.store system.media lba →
      valueSectors system.store.capabilities
        (storedHeader system.store system.media lba).valueLen ≤ 2 ^ system.store.valueBits) :
    system.Apart := by
  intro first second valid otherValid lba probed other otherProbed below sectors takes
  have slots : lba + 2 ^ system.store.valueBits ≤ other := by
    by_contra inside
    rw [PutCall.probes, pool first] at probed
    rw [PutCall.probes, pool second] at otherProbed
    have same := probes_apart (List.length_pos_iff.mp (of_decide_eq_true valid.1).1)
      (List.length_pos_iff.mp (of_decide_eq_true otherValid.1).1) probed otherProbed
      (Nat.le_of_lt below) (by omega)
    omega
  refine (Nat.add_le_add_left ?_ lba).trans slots
  rcases takes with ⟨thread, threadValid, _, rfl⟩ | ⟨held, rfl⟩
  · obtain ⟨positive, bounded, _⟩ := of_decide_eq_true threadValid.2
    exact extent_in_window _ (of_decide_eq_true threadValid.1).2 positive bounded
  · exact lengths first lba probed held

end PutSystem

section Memory

variable {store : NvmKvStore} {poolId : UInt32} {pair : NvmKvIovec} {allocation : Allocation}

/-- The body of a put without memory for its vectors does not succeed. -/
theorem returns_kvPutBody_memory (uncached : store.cacheSize = 0) :
    (kvPutBody store poolId pair allocation).Returns fun body =>
      body.retCode = .ok () → allocation.iovec ≠ none := by
  refine Program.Returns.bind fun known => ?_
  dsimp only
  split_ifs with refused caching
  · exact nofun
  · omega
  · unfold kvPutPlace
    split
    · exact nofun
    · refine Program.Returns.bind fun placed => ?_
      dsimp only
      split
      · exact nofun
      · unfold kvPutWrite
        cases given : allocation.iovec with
        | none => exact nofun
        | some memory => exact Program.Returns.any.mono fun _ _ _ => Option.some_ne_none _

/-- A put without memory for its vectors does not succeed. -/
theorem returns_kvPut_memory (uncached : store.cacheSize = 0) :
    (kvPut store poolId pair allocation).Returns fun result =>
      ∀ length, result = .ok length → allocation.iovec ≠ none := by
  refine Program.Returns.seq (returns_kvPutBody_memory uncached) fun body memory => ?_
  have ends : ∀ length, body.retCode.map (fun _ => pair.valueLen) = .ok length →
      allocation.iovec ≠ none := by
    intro length success
    apply memory
    cases code : body.retCode with
    | error code =>
      rw [code] at success
      cases success
    | ok done => rfl
  split_ifs
  · exact Program.Returns.bind fun _ => ends
  · exact ends

end Memory

namespace PutSystem

/-- A put that returned a length has handed over a batch. What the other put is about to hand
over covers no sector that it wrote under another key. And of two puts of one absent key that
are not to replace it at most one has returned a length. -/
structure KeepsPuts (system : PutSystem Bool) (config : Config Bool) : Prop where
  handed : ∀ thread length, config.threads thread = .done (.ok length) →
    Handed thread config.shared
  spares : ∀ thread op next length, config.threads thread = .call op next →
    config.threads (!thread) = .done (.ok length) → system.Spares thread config.shared op
  once : (system.calls false).SameKey (system.calls true) →
    (∀ lba ∈ (system.calls false).probes system.store,
      ¬(system.calls false).Holds system.store system.media lba) →
    (∀ thread, (system.calls thread).pair.replace = false) →
    ∀ first second, config.threads false = .done (.ok first) →
      config.threads true ≠ .done (.ok second)

end PutSystem

/-- A put announces at least one vector and fills those that it announces, and its pair does
not count as expired when it is put. -/
structure PutCall.Writes (store : NvmKvStore) (clock : Nat) (call : PutCall) : Prop where
  filled : call.pair.Filled store
  announced : 0 < (call.pair.layout store).iovCount
  lasting : expiresAtOnce store call.pair clock = false

/-- In every interleaving of two puts that take addresses in time an acknowledged put is not
written over by a put of another key, and an absent key is put once. -/
theorem two_puts_kept (system : PutSystem Bool) (uncached : system.store.cacheSize = 0)
    (apart : system.Apart) (state : StoreState Bool) (starts : system.Starts state)
    (writes : ∀ thread, (system.calls thread).Writes system.store state.clock)
    (config : PutSystem.Config Bool)
    (reached : Config.Reachable (answer system.store)
      (fun thread op state => (system.calls thread).TakesInTime system.store state op)
      (system.start state) config) :
    system.KeepsPuts config := by
  obtain ⟨spares, handed⟩ := PutSystem.sound uncached apart (fun thread => (writes thread).filled)
    starts reached
  refine ⟨handed, fun thread op next length pending _ => spares thread op next pending, ?_⟩
  intro sameKey absent keeps first second succeeded succeededToo
  have memory : ∀ {thread length}, config.threads thread = .done (.ok length) →
      (system.calls thread).allocation.iovec ≠ none := by
    intro thread length returned
    have returns := @Config.Reachable.returns _ _ _ _ _ _ _ _ _ _ thread _ reached
      (returns_kvPut_memory uncached)
    rw [returned] at returns
    exact returns length rfl
  have races : system.Races (system.calls false).poolId (system.calls false).pair.key
      state.clock := by
    refine ⟨?_, ?_, keeps, ?_, fun thread => (writes thread).filled,
      fun thread => (writes thread).announced, fun thread => (writes thread).lasting⟩
    · intro thread
      cases thread with
      | false => exact ⟨rfl, rfl⟩
      | true => exact ⟨sameKey.1.symm, sameKey.2.symm⟩
    · exact fun lba probed => Bool.eq_false_iff.mpr (absent lba probed)
    · intro thread
      cases thread with
      | false => exact memory succeeded
      | true => exact memory succeededToo
  have same := PutSystem.race_once uncached races starts rfl reached succeeded succeededToo
  cases same

section Overwritten

/-- Two puts of keys with the same first address into an empty store. -/
def collidingPuts : PutSystem Bool where
  store := NvmKvStore.terabyteStore
  calls := fun thread =>
    ⟨0, bytePair (if thread then behindKey else frontKey), plentyMemory⟩
  media := fun _ => none

/-- The state in which they start. -/
def collidingStart : StoreState Bool := .opened (fun _ => none) (fun _ => false) 0

/-- The system of two colliding puts starts from this state. -/
theorem collidingPuts_starts : collidingPuts.Starts collidingStart := ⟨rfl, fun _ => rfl, rfl⟩

/-- One put asks for its window before the other one runs, and takes the address without
waiting after it: it is about to write over the acknowledged pair. -/
theorem acknowledged_put_overwritten :
    ¬∀ (system : PutSystem Bool) (state : StoreState Bool) (config : PutSystem.Config Bool),
      system.store.cacheSize = 0 → system.Starts state →
      Config.Reachable (answer system.store) (fun _ _ _ => True) (system.start state) config →
      system.KeepsPuts config := by
  intro kept
  have begun : Config.Reachable (answer NvmKvStore.terabyteStore) (fun _ _ _ => True)
      (collidingPuts.start collidingStart) (collidingPuts.start collidingStart) := .start
  have validated := begun.advance false PoolStatus.poolInUse _ rfl trivial rfl
  have asked := validated.advance false (some ⟨frontLba, 0⟩) _ rfl trivial
    (answer_rangeExists_opened _)
  have otherValidated := asked.advance true PoolStatus.poolInUse _ rfl trivial rfl
  have otherAsked := otherValidated.advance true (some ⟨frontLba, 0⟩) _ rfl trivial
    (answer_rangeExists_opened _)
  have otherTaken := otherAsked.advance true true _ rfl trivial rfl
  have otherWritten := otherTaken.advance true true _ rfl trivial rfl
  have otherReleased := otherWritten.advance true true _ rfl trivial rfl
  have taken := otherReleased.advance false true _ rfl trivial rfl
  have spared := (kept _ _ _ rfl collidingPuts_starts taken).spares false (.batchAtomic _) _ 1 rfl
    rfl true _ List.mem_cons_self fun same => absurd same.2 (by decide)
  exact spared _ List.mem_cons_self rfl frontLba ⟨le_rfl, by decide⟩ _ List.mem_cons_self
    ⟨le_rfl, by decide⟩

/-- A put that nobody disturbs takes its address in time. -/
theorem takesInTime_alone {ι : Type} {store : NvmKvStore} (uncached : store.cacheSize = 0)
    (call : PutCall) {thread : ι} {state : StoreState ι} (idle : Idle state) :
    (call.program store).Throughout (answer store thread)
      (fun op state => call.TakesInTime store state op) state := by
  refine throughout_kvPut uncached ?_ (fun fits _ => fits) idle
  intro op state besides
  cases op with
  | checkEntry lba => exact absurd rfl (besides lba)
  | _ => trivial

/-- One of the colliding puts has run to its end and is acknowledged, and the other one, which
found that pair on its way, is about to hand over its batch at the next address. -/
theorem two_puts_kept_acknowledged : ∃ (config : PutSystem.Config Bool) (iovec : List NvmIovec)
    (next : StoreRes (.batchAtomic iovec) → StoreM (Except NvmErrorCode Nat)),
    config.threads true = .done (.ok 1) ∧
      config.threads false = .call (.batchAtomic iovec) next ∧ collidingPuts.KeepsPuts config := by
  have apart : collidingPuts.Apart := by
    refine PutSystem.apart_of_pool (fun _ => rfl) fun thread lba _ held => ?_
    have positive : 0 < (collidingPuts.calls thread).pair.key.length := by
      cases thread <;> decide
    exact absurd rfl (mapped_of_holds positive held)
  have writes : ∀ thread, (collidingPuts.calls thread).Writes NvmKvStore.terabyteStore 0 := by
    intro thread
    cases thread <;> exact ⟨by decide, by decide, by decide⟩
  obtain ⟨shares, _⟩ := behindKey_probes
  have blank : windowFree NvmKvStore.terabyteStore collidingStart.media behindLba = true :=
    windowFree_iff.mpr fun _ _ => rfl
  obtain ⟨written, put, continues, buf, media⟩ := @bytePair_run _ 0 behindKey true collidingStart
    frontLba (fun _ => rfl) rfl ⟨_, rfl⟩
    (by rw [← shares]; exact searchEnd_first (windowFree_iff.mpr fun _ _ => rfl))
    (windowFree_iff.mpr fun _ _ => rfl)
  have held : holds NvmKvStore.terabyteStore written.media 0 behindKey frontLba = true :=
    holds_written media (by decide) (by decide)
  have free : windowFree NvmKvStore.terabyteStore written.media behindLba = true := by
    rw [media]
    exact behindLba_free blank
  obtain ⟨after, otherPut, _, _, otherMedia⟩ := @bytePair_run _ 0 frontKey false written behindLba
    continues.idle (continues.accepts rfl) ⟨_, rfl⟩
    (searchEnd_behind rfl rfl (by decide) (by decide) held free) free
  have changed : after.media ≠ written.media := by
    intro same
    have unmapped : written.media behindLba = none := windowFree_iff.mp free 0 (Nat.two_pow_pos _)
    rw [← same, otherMedia, Function.update_self] at unmapped
    cases unmapped
  obtain ⟨iovec, next, before, moves, _⟩ := exists_batch otherPut changed
  have begun : Config.Reachable (answer NvmKvStore.terabyteStore)
      (fun thread op state => (collidingPuts.calls thread).TakesInTime collidingPuts.store state op)
      (collidingPuts.start collidingStart) (collidingPuts.start collidingStart) := .start
  have acknowledged := begun.moves_throughout true rfl
    (takesInTime_alone rfl (collidingPuts.calls true) fun _ => rfl) (.of_run put)
  have reached := acknowledged.moves_throughout false (Function.update_of_ne (by decide) _ _)
    (takesInTime_alone rfl (collidingPuts.calls false) continues.idle) moves
  exact ⟨_, iovec, next, rfl, rfl, two_puts_kept collidingPuts rfl apart collidingStart
    collidingPuts_starts writes _ reached⟩

end Overwritten

end Nvmkv
