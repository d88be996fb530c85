import Nvmkv.BatchRounds

/-!
# The addresses that a batch put takes

A batch put releases the chosen addresses at its end, when the flag that all its pairs
share is set. In front of every pair the addresses on the safe list are chosen ones, and
the flag is set exactly when some are chosen (`BatchHolds`). Two rounds break this, and
both end the batch put with an error. One takes the address that the cache remembers and
then has no room for its pair: the address was not chosen yet. The other starts its search
with the flag set for earlier pairs, passes the first address by, which resets the flag,
and ends without an address: nothing is released.

Every other round keeps the invariant or ends the batch put so that the release restores
the safe list. Whether it is restored is thus decided by the rounds to which the batch put
comes.
-/

namespace Nvmkv

variable {ι : Type} {store : NvmKvStore} {thread : ι} {outcome : Nat → Bool}

/-- A search along some addresses, by a caller who holds none, ends without an address: an
operation of the device fails, the key has a live pair that may not be replaced, or all
addresses are passed by. -/
def EndsWithout (store : NvmKvStore) (outcome : Nat → Bool) (clock : Nat) (media : Media)
    (poolId : UInt32) (pair : NvmKvIovec) : (operations : Nat) → List Nat → Prop
  | _, [] => True
  | operations, lba :: rest =>
      outcome operations = false ∨
        windowFree store media lba = false ∧
          (outcome (operations + 1) = false ∨
            holds store media poolId pair.key lba = true ∧ pair.replace = false ∧
              pairExpired store clock (storedHeader store media lba) = false ∨
            PassesBy store outcome media poolId pair.key operations lba ∧
              EndsWithout store outcome clock media poolId pair (operations + 2) rest)

/-- The search ends so exactly when it returns an error. Induction follows the addresses. -/
theorem endsWithout_iff {clock operations : Nat} {media : Media} {poolId : UInt32}
    {pair : NvmKvIovec} {lbas : List Nat} :
    EndsWithout store outcome clock media poolId pair operations lbas ↔
      ∃ code, (searchWith store outcome clock media poolId pair false operations lbas).retCode =
        .error code := by
  induction lbas generalizing operations with
  | nil => exact iff_of_true trivial ⟨_, rfl⟩
  | cons lba rest inductionHypothesis =>
    rw [EndsWithout]
    by_cases passes : PassesBy store outcome media poolId pair.key operations lba
    · rw [searchWith_passes passes, inductionHypothesis]
      obtain ⟨works, mapped, reads, other⟩ := passes
      simp only [works, mapped, reads, other, PassesBy, Bool.true_eq_false, Bool.false_eq_true,
        false_and, true_and, false_or]
    · simp only [passes, false_and, or_false]
      simp only [searchWith]
      cases works : outcome operations with
      | false => simp only [true_or, if_true, Except.error.injEq, exists_eq']
      | true =>
        cases free : windowFree store media lba with
        | true => simp
        | false =>
          cases reads : outcome (operations + 1) with
          | false => simp
          | true =>
            cases held : holds store media poolId pair.key lba with
            | false => exact absurd ⟨works, free, reads, held⟩ passes
            | true =>
              cases expired : pairExpired store clock (storedHeader store media lba) with
              | true => simp
              | false => cases pair.replace <;> simp

/-- In front of a pair: the addresses on the safe list are chosen ones, and when some are
chosen the flag is set and one of them is on the list. -/
structure BatchHolds (state : BatchState) (run : DeviceRun ι) : Prop where
  held : ∀ lba, run.store.safeLbaList lba ≠ none → lba ∈ state.lbaList.chosen
  flag : state.insertLba = true ↔ state.lbaList ≠ []
  some : state.lbaList ≠ [] → ∃ lba, run.store.safeLbaList lba ≠ none

/-- The release at the end empties the safe list. -/
def ReleasesAll (state : BatchState) (run : DeviceRun ι) : Prop :=
  ∀ lba, run.store.safeLbaList lba ≠ none →
    state.insertLba = true ∧ lba ∈ state.lbaList.chosen

/-- When the addresses of the batch are taken off the list as it says, the list is empty just when
nothing else was on it. -/
theorem releasesAll_iff {state : BatchState} {run released : DeviceRun ι}
    (list : ∀ lba, released.store.safeLbaList lba =
      if state.insertLba = true ∧ lba ∈ state.lbaList.chosen then none
      else run.store.safeLbaList lba) :
    (∀ lba, released.store.safeLbaList lba = none) ↔ ReleasesAll state run := by
  refine forall_congr' fun lba => ?_
  rw [list]
  split_ifs with chosen
  · exact iff_of_true rfl fun _ => chosen
  · constructor
    · exact fun free taken => absurd free taken
    · intro releases
      by_contra taken
      exact chosen (releases taken)

/-- A batch that holds what it has chosen and nothing else releases all. -/
theorem BatchHolds.releasesAll {state : BatchState} {run : DeviceRun ι}
    (holds : BatchHolds state run) : ReleasesAll state run := by
  intro lba taken
  have member := holds.held lba taken
  refine ⟨holds.flag.mpr fun none => ?_, member⟩
  rw [none] at member
  cases member

section Search

variable {poolId : UInt32} {pair : NvmKvIovec} {state : BatchState} {run : DeviceRun ι}

/-- A search loses the addresses of the batch: it starts with the flag set, passes its first
address by and ends without an address. -/
def SearchLoses (store : NvmKvStore) (outcome : Nat → Bool) (poolId : UInt32) (pair : NvmKvIovec)
    (state : BatchState) (run : DeviceRun ι) : Prop :=
  state.lbaList ≠ [] ∧
    ∃ lba rest, skipChosen state.lbaList pair.key (store.probes poolId pair.key) =
        .probes (lba :: rest) ∧
      PassesBy store outcome run.store.media poolId pair.key run.operations lba ∧
      EndsWithout store outcome run.store.clock run.store.media poolId pair
        (run.operations + 2) rest

/-- What the search of a batch leaves: an address that is taken now or was believed to be
held, or an error, with the flag as it was or lost. -/
def SearchLeaves (store : NvmKvStore) (thread : ι) (outcome : Nat → Bool) (poolId : UInt32)
    (pair : NvmKvIovec) (state : BatchState) (run : DeviceRun ι) (placed : GenLba)
    (found : DeviceRun ι) : Prop :=
  placed.retCode = .ok () ∧ placed.insertLba = true ∧
      ¬SearchLoses store outcome poolId pair state run ∧
      (run.Took thread found true placed.keyHashVal ∨
        state.lbaList ≠ [] ∧ found.store.safeLbaList = run.store.safeLbaList) ∨
    (∃ code, placed.retCode = .error code) ∧
      found.store.safeLbaList = run.store.safeLbaList ∧
      (¬SearchLoses store outcome poolId pair state run ∧ placed.insertLba = state.insertLba ∨
        SearchLoses store outcome poolId pair state run ∧ placed.insertLba = false)

/-- The search of a batch that holds nothing yet is that of a put. -/
theorem leaves_first {lbas : List Nat} {buf : Region} {placed : GenLba} {found : DeviceRun ι}
    (short : pair.key.length ≤ nvmKvMaxKeySize) (none : state.lbaList = [])
    (flag : state.insertLba = false)
    (ran : (kvGenLbaProbes store poolId pair lbas false buf).run (answerWith store thread outcome)
      run = some (placed, found)) :
    SearchLeaves store thread outcome poolId pair state run placed found := by
  have keeps : ¬SearchLoses store outcome poolId pair state run := fun loses => loses.1 none
  rcases took_kvGenLbaProbes short ran with ⟨success, inserted, took⟩ | ⟨error, inserted, list⟩
  · exact Or.inl ⟨success, inserted, keeps, Or.inl took⟩
  · exact Or.inr ⟨error, list, Or.inl ⟨keeps, inserted.trans flag.symm⟩⟩

/-- The search of a batch that holds addresses begins at one that it believes to hold. It
ends there, or it has lost the flag and goes on as one that holds nothing. -/
theorem leaves_believed {lba : Nat} {rest : List Nat} {buf : Region} {placed : GenLba}
    {found : DeviceRun ι} (short : pair.key.length ≤ nvmKvMaxKeySize)
    (others : state.lbaList ≠ []) (flag : state.insertLba = true)
    (starts : skipChosen state.lbaList pair.key (store.probes poolId pair.key) =
      .probes (lba :: rest))
    (free : run.store.safeLbaList lba = none)
    (ran : (kvGenLbaProbes store poolId pair (lba :: rest) true buf).run
      (answerWith store thread outcome) run = some (placed, found)) :
    SearchLeaves store thread outcome poolId pair state run placed found := by
  obtain ⟨read, ends⟩ :=
    run_kvGenLbaProbes_with store thread outcome short (lba :: rest) true buf run
  rw [ends] at ran
  dsimp only at ran
  obtain ⟨reached, taken, same⟩ := Option.map_eq_some_iff.mp ran
  obtain ⟨rfl, rfl⟩ := Prod.mk.inj same
  have first : ∀ other later, skipChosen state.lbaList pair.key (store.probes poolId pair.key) =
      .probes (other :: later) → lba = other ∧ rest = later := by
    intro other later again
    rw [starts] at again
    exact List.cons.inj (BatchStart.probes.inj again)
  by_cases passes : PassesBy store outcome run.store.media poolId pair.key run.operations lba
  · rw [searchWith_passes passes] at taken ⊢
    have list : ((run.counted (searchWith store outcome run.store.clock run.store.media poolId pair
        false (run.operations + 2) rest).operations).drop (some lba)).store.safeLbaList =
          run.store.safeLbaList := by
      change Function.update run.store.safeLbaList lba none = _
      rw [← free, Function.update_eq_self]
    have loses : SearchLoses store outcome poolId pair state run ↔
        ∃ code, (searchWith store outcome run.store.clock run.store.media poolId pair false
          (run.operations + 2) rest).retCode = .error code := by
      rw [← endsWithout_iff]
      constructor
      · rintro ⟨_, other, later, again, _, without⟩
        obtain ⟨rfl, rfl⟩ := first other later again
        exact without
      · exact fun without => ⟨others, lba, rest, starts, passes, without⟩
    rcases (searchWith_inserts store outcome _ _ poolId pair _ rest).took taken list with
      ⟨success, inserted, took⟩ | ⟨error, inserted, same⟩
    · refine Or.inl ⟨success, inserted, ?_, Or.inl took⟩
      rw [loses]
      rintro ⟨code, error⟩
      rw [success] at error
      cases error
    · exact Or.inr ⟨error, same, Or.inr ⟨loses.mpr error, inserted⟩⟩
  · have keeps : ¬SearchLoses store outcome poolId pair state run := by
      rintro ⟨_, other, later, again, gone, _⟩
      obtain ⟨rfl, rfl⟩ := first other later again
      exact passes gone
    have stops := @searchWith_stays _ outcome run.store.clock _ _ _ _ pair true rest passes
    obtain ⟨dropped, address, code⟩ := stops
    rw [dropped, DeviceRun.drop] at taken
    rcases code with ⟨error, inserted, none⟩ | ⟨success, inserted, way⟩
    · rw [none] at taken
      cases taken
      exact Or.inr ⟨error, rfl, Or.inl ⟨keeps, inserted.trans flag.symm⟩⟩
    · refine Or.inl ⟨success, inserted, keeps, ?_⟩
      rcases way with ⟨_, one⟩ | ⟨_, _, none⟩
      · rw [one] at taken
        left
        rw [SearchEnd.result, address]
        have took := DeviceRun.took_of_take taken
        exact took
      · rw [none, if_pos rfl] at taken
        cases taken
        exact Or.inr ⟨others, rfl⟩

/-- The search of a batch, wherever the addresses chosen before let it begin. -/
theorem leaves_kvGenLba {buf : Region} {placed : GenLba} {found : DeviceRun ι}
    (holds : BatchHolds state run) (short : pair.key.length ≤ nvmKvMaxKeySize)
    (ran : (kvGenLba store poolId pair buf state.insertLba (some state.lbaList)).run
      (answerWith store thread outcome) run = some (placed, found)) :
    SearchLeaves store thread outcome poolId pair state run placed found := by
  unfold kvGenLba at ran
  dsimp only at ran
  split at ran
  · rename_i lba starts
    cases ran
    have member := skipChosen_duplicate starts
    have others : state.lbaList ≠ [] := by
      intro none
      rw [none] at member
      cases member
    refine Or.inl ⟨rfl, holds.flag.mpr others, ?_, Or.inr ⟨others, rfl⟩⟩
    rintro ⟨_, other, later, again, _⟩
    rw [starts] at again
    cases again
  · rename_i lba starts
    cases ran
    refine Or.inr ⟨⟨_, rfl⟩, rfl, Or.inl ⟨?_, rfl⟩⟩
    rintro ⟨_, other, later, again, _⟩
    rw [starts] at again
    cases again
  · rename_i found starts
    obtain ⟨skipped, lba, rest, split, rfl, new, before⟩ := skipChosen_probes starts
    by_cases none : state.lbaList = []
    · have flag : state.insertLba = false := by
        rw [Bool.eq_false_iff]
        exact fun set => holds.flag.mp set none
      rw [flag] at ran
      exact leaves_first short none flag ran
    · have flag := holds.flag.mpr none
      rw [flag] at ran
      refine leaves_believed short none flag starts ?_ ran
      by_contra taken
      exact new (holds.held lba taken)

end Search

section Rounds

variable {poolId : UInt32} {pair : NvmKvIovec} {buf : PoolBuf} {state ended : BatchState}
  {run after : DeviceRun ι}

/-- A round that changes neither the flag nor the lists keeps the invariant. -/
theorem BatchHolds.same (holds : BatchHolds state run) (flag : ended.insertLba = state.insertLba)
    (chosen : ended.lbaList = state.lbaList)
    (list : after.store.safeLbaList = run.store.safeLbaList) : BatchHolds ended after := by
  constructor
  · rw [chosen, list]
    exact holds.held
  · rw [flag, chosen]
    exact holds.flag
  · rw [chosen, list]
    exact holds.some

/-- A round that finds an address keeps the invariant. -/
theorem BatchHolds.placed {lba : Nat} (holds : BatchHolds state run)
    (flag : ended.insertLba = true) (chosen : ended.lbaList = state.lbaList.insert lba pair.key)
    (list : run.Took thread after true lba ∨
      state.lbaList ≠ [] ∧ after.store.safeLbaList = run.store.safeLbaList) :
    BatchHolds ended after := by
  have some : ended.lbaList ≠ [] := by
    intro none
    have member : lba ∈ ended.lbaList.chosen := by
      rw [chosen, LbaList.mem_insert_chosen]
      exact Or.inr rfl
    rw [none] at member
    cases member
  refine ⟨?_, iff_of_true flag some, ?_⟩
  · intro held taken
    rw [chosen, LbaList.mem_insert_chosen]
    rcases list with ⟨_, took⟩ | ⟨_, same⟩
    · rw [took, Function.update_apply] at taken
      split_ifs at taken with here
      · exact Or.inr here
      · exact Or.inl (holds.held held taken)
    · rw [same] at taken
      exact Or.inl (holds.held held taken)
  · intro _
    rcases list with ⟨_, took⟩ | ⟨others, same⟩
    · refine ⟨lba, ?_⟩
      rw [took, Function.update_self]
      exact Option.some_ne_none thread
    · rw [same]
      exact holds.some others

/-- A round leaves addresses on the safe list for good. It takes the one that the cache
remembers and has no room for its pair, or its search loses those of the batch. -/
inductive BatchLeaves (store : NvmKvStore) (outcome : Nat → Bool) (poolId : UInt32)
    (pair : NvmKvIovec) (buf : PoolBuf) (state : BatchState) (run : DeviceRun ι) : Prop
  | unfit (accepted : pairAccepted store pair = true)
      (allows : cacheRefuses store run.store poolId pair = false)
      (found : (cacheAnswer store run.store poolId pair.key).1 = true)
      (new : (cacheAnswer store run.store poolId pair.key).2.contextEntry.lba ∉
        state.lbaList.chosen)
      (unfit : ¬BatchFits store pair buf state)
  | loses (accepted : pairAccepted store pair = true)
      (allows : cacheRefuses store run.store poolId pair = false)
      (searches : (cacheAnswer store run.store poolId pair.key).1 = true →
        ∃ chosenKey, state.lbaList.lookup
          (cacheAnswer store run.store poolId pair.key).2.contextEntry.lba = some chosenKey ∧
            chosenKey ≠ pair.key)
      (fits : BatchFits store pair buf state)
      (loses : SearchLoses store outcome poolId pair state run)

/-- What is left after a round: the invariant, or the end of the batch put, whose release
empties the safe list unless the round leaves addresses. -/
def RoundEnds (leaves : Prop) (ended : Except NvmErrorCode Unit × BatchState)
    (after : DeviceRun ι) : Prop :=
  match ended.1 with
  | .ok () => BatchHolds ended.2 after ∧ ¬leaves
  | .error _ => ReleasesAll ended.2 after ↔ ¬leaves

/-- A round that keeps the invariant whether it is the last one or not. -/
theorem RoundEnds.keeps {leaves : Prop} {ended : Except NvmErrorCode Unit × BatchState}
    (stays : ¬leaves) (holds : BatchHolds ended.2 after) : RoundEnds leaves ended after := by
  obtain ⟨result, prepared⟩ := ended
  cases result with
  | error code => exact iff_of_true holds.releasesAll stays
  | ok done => exact ⟨holds, stays⟩

/-- A round that found its address. -/
theorem RoundEnds.placed {leaves : Prop} {ended : Except NvmErrorCode Unit × BatchState}
    {placed : GenLba} (stays : ¬leaves) (holds : BatchHolds state run)
    (round : RoundPlaced pair state placed ended) (success : placed.retCode = .ok ())
    (flag : placed.insertLba = true)
    (list : run.Took thread after true placed.keyHashVal ∨
      state.lbaList ≠ [] ∧ after.store.safeLbaList = run.store.safeLbaList) :
    RoundEnds leaves ended after :=
  .keeps stays (holds.placed (round.flag.trans flag) (round.placed success).1 list)

/-- A round behind the cache that has to search for its address. -/
theorem roundEnds_searches {context : NvmKvCacheContext}
    {ended : Except NvmErrorCode Unit × BatchState} (holds : BatchHolds state run)
    (accepted : pairAccepted store pair = true)
    (allows : cacheRefuses store run.store poolId pair = false)
    (searches : (cacheAnswer store run.store poolId pair.key).1 = true →
      ∃ chosenKey, state.lbaList.lookup
        (cacheAnswer store run.store poolId pair.key).2.contextEntry.lba = some chosenKey ∧
          chosenKey ≠ pair.key)
    (ran : (batchPlace store poolId pair buf state ⟨false, context, state.insertLba⟩).run
      (answerWith store thread outcome) run = some (ended, after)) :
    RoundEnds (BatchLeaves store outcome poolId pair buf state run) ended after := by
  have known : (cacheAnswer store run.store poolId pair.key).1 = true →
      (cacheAnswer store run.store poolId pair.key).2.contextEntry.lba ∈ state.lbaList.chosen := by
    intro found
    obtain ⟨chosenKey, listed, _⟩ := searches found
    rw [LbaList.mem_chosen, listed]
    rfl
  by_cases fits : BatchFits store pair buf state
  · have leaves : BatchLeaves store outcome poolId pair buf state run ↔
        SearchLoses store outcome poolId pair state run := by
      constructor
      · intro left
        cases left with
        | unfit _ _ _ _ unfit => exact absurd fits unfit
        | loses _ _ _ _ loses => exact loses
      · exact .loses accepted allows searches fits
    obtain ⟨given, waits, ends⟩ := @run_batchPlace_fit _ store thread outcome poolId pair buf state
      ⟨false, context, state.insertLba⟩ run fits
    cases search : (batchLba store poolId pair ⟨false, context, state.insertLba⟩ given
        state.lbaList).run (answerWith store thread outcome) run with
    | none =>
      rw [waits search] at ran
      cases ran
    | some result =>
      obtain ⟨placed, found⟩ := result
      obtain ⟨same, again, round⟩ := ends placed found search
      rw [again] at ran
      cases ran
      have short : pair.key.length ≤ nvmKvMaxKeySize := by
        rw [pairAccepted, Bool.and_eq_true] at accepted
        exact (of_decide_eq_true accepted.1).2
      rcases leaves_kvGenLba holds short search with ⟨success, flag, keeps, list⟩ |
        ⟨⟨code, error⟩, list, ⟨keeps, flag⟩ | ⟨loses, flag⟩⟩
      · exact .placed (mt leaves.mp keeps) holds round success flag list
      · obtain ⟨_, chosen⟩ := round.failed code error
        exact .keeps (mt leaves.mp keeps) (holds.same (round.flag.trans flag) chosen list)
      · obtain ⟨result, _⟩ := round.failed code error
        unfold RoundEnds
        rw [result]
        obtain ⟨lba, taken⟩ := holds.some loses.1
        refine iff_of_false (fun releases => ?_) (not_not.mpr (leaves.mpr loses))
        rw [← list] at taken
        have set := (releases lba taken).1
        rw [round.flag, flag] at set
        cases set
  · have stays : ¬BatchLeaves store outcome poolId pair buf state run := by
      intro left
      cases left with
      | unfit _ _ found new _ => exact new (known found)
      | loses _ _ _ fit _ => exact fits fit
    obtain ⟨code, prepared, again, flag, chosen⟩ := @run_batchPlace_unfit _ store thread outcome
      poolId pair buf state ⟨false, context, state.insertLba⟩ run fits
    rw [again] at ran
    cases ran
    exact .keeps stays (holds.same flag chosen rfl)

/-- A round that takes the address that the cache remembers. -/
theorem roundEnds_remembered {held : DeviceRun ι}
    {ended : Except NvmErrorCode Unit × BatchState} (holds : BatchHolds state run)
    (accepted : pairAccepted store pair = true)
    (allows : cacheRefuses store run.store poolId pair = false)
    (found : (cacheAnswer store run.store poolId pair.key).1 = true)
    (new : (cacheAnswer store run.store poolId pair.key).2.contextEntry.lba ∉ state.lbaList.chosen)
    (took : run.Took thread held true
      (cacheAnswer store run.store poolId pair.key).2.contextEntry.lba)
    (ran : (batchPlace store poolId pair buf state
      ⟨true, (cacheAnswer store run.store poolId pair.key).2, true⟩).run
        (answerWith store thread outcome) held = some (ended, after)) :
    RoundEnds (BatchLeaves store outcome poolId pair buf state run) ended after := by
  by_cases fits : BatchFits store pair buf state
  · have stays : ¬BatchLeaves store outcome poolId pair buf state run := by
      intro left
      cases left with
      | unfit _ _ _ _ unfit => exact unfit fits
      | loses _ _ searches _ _ =>
        obtain ⟨chosenKey, listed, _⟩ := searches found
        rw [LbaList.mem_chosen, listed] at new
        exact new rfl
    obtain ⟨given, _, ends⟩ := @run_batchPlace_fit _ store thread outcome poolId pair buf state
      ⟨true, (cacheAnswer store run.store poolId pair.key).2, true⟩ held fits
    obtain ⟨same, again, round⟩ := ends _ _ rfl
    rw [again] at ran
    cases ran
    exact .placed stays holds round rfl rfl (Or.inl took)
  · obtain ⟨code, prepared, again, flag, chosen⟩ := @run_batchPlace_unfit _ store thread outcome
      poolId pair buf state ⟨true, (cacheAnswer store run.store poolId pair.key).2, true⟩ held fits
    rw [again] at ran
    cases ran
    refine iff_of_false (fun releases => ?_) (not_not.mpr (.unfit accepted allows found new fits))
    have taken : after.store.safeLbaList
        (cacheAnswer store run.store poolId pair.key).2.contextEntry.lba ≠ none := by
      rw [took.2, Function.update_self]
      exact Option.some_ne_none thread
    have member := (releases _ taken).2
    rw [chosen] at member
    exact new member

/-- A round whose pair is remembered at the address of an earlier pair with the same key. -/
theorem roundEnds_repeated {ended : Except NvmErrorCode Unit × BatchState}
    (holds : BatchHolds state run)
    (found : (cacheAnswer store run.store poolId pair.key).1 = true)
    (listed : state.lbaList.lookup
      (cacheAnswer store run.store poolId pair.key).2.contextEntry.lba = some pair.key)
    (ran : (batchPlace store poolId pair buf state
      ⟨true, (cacheAnswer store run.store poolId pair.key).2, state.insertLba⟩).run
        (answerWith store thread outcome) run = some (ended, after)) :
    RoundEnds (BatchLeaves store outcome poolId pair buf state run) ended after := by
  have member : (cacheAnswer store run.store poolId pair.key).2.contextEntry.lba ∈
      state.lbaList.chosen := by
    rw [LbaList.mem_chosen, listed]
    rfl
  have others : state.lbaList ≠ [] := by
    intro none
    rw [none] at member
    cases member
  have stays : ¬BatchLeaves store outcome poolId pair buf state run := by
    intro left
    cases left with
    | unfit _ _ _ new _ => exact new member
    | loses _ _ searches _ _ =>
      obtain ⟨chosenKey, same, other⟩ := searches found
      rw [listed] at same
      exact other (Option.some.inj same).symm
  by_cases fits : BatchFits store pair buf state
  · obtain ⟨given, _, ends⟩ := @run_batchPlace_fit _ store thread outcome poolId pair buf state
      ⟨true, (cacheAnswer store run.store poolId pair.key).2, state.insertLba⟩ run fits
    obtain ⟨same, again, round⟩ := ends _ _ rfl
    rw [again] at ran
    cases ran
    have list : run.Took thread run true
          (cacheAnswer store run.store poolId pair.key).2.contextEntry.lba ∨
        state.lbaList ≠ [] ∧ run.store.safeLbaList = run.store.safeLbaList := Or.inr ⟨others, rfl⟩
    exact .placed stays holds round rfl (holds.flag.mpr others) list
  · obtain ⟨code, prepared, again, flag, chosen⟩ := @run_batchPlace_unfit _ store thread outcome
      poolId pair buf state
      ⟨true, (cacheAnswer store run.store poolId pair.key).2, state.insertLba⟩ run fits
    rw [again] at ran
    cases ran
    exact .keeps stays (holds.same flag chosen rfl)

/-- One round of the loop. -/
theorem roundEnds_batchPair {ended : Except NvmErrorCode Unit × BatchState}
    (holds : BatchHolds state run)
    (ran : (batchPair store poolId pair buf state).run (answerWith store thread outcome) run =
      some (ended, after)) :
    RoundEnds (BatchLeaves store outcome poolId pair buf state run) ended after := by
  cases accepted : pairAccepted store pair with
  | false =>
    rw [run_batchPair_rejected accepted] at ran
    cases ran
    refine .keeps (fun left => ?_) holds
    cases left with
    | unfit valid _ _ _ _ => exact Bool.false_ne_true (accepted.symm.trans valid)
    | loses valid _ _ _ _ => exact Bool.false_ne_true (accepted.symm.trans valid)
  | true =>
    rw [run_batchPair_accepted accepted] at ran
    dsimp only at ran
    cases allows : cacheRefuses store run.store poolId pair with
    | true =>
      rw [allows, if_pos rfl] at ran
      cases ran
      refine .keeps (fun left => ?_) holds
      cases left with
      | unfit _ allowed _ _ _ => exact Bool.false_ne_true (allowed.symm.trans allows)
      | loses _ allowed _ _ _ => exact Bool.false_ne_true (allowed.symm.trans allows)
    | false =>
      rw [allows, if_neg Bool.false_ne_true] at ran
      cases found : (cacheAnswer store run.store poolId pair.key).1 with
      | false =>
        rw [found, if_neg Bool.false_ne_true] at ran
        refine roundEnds_searches holds accepted allows (fun hit => ?_) ran
        exact absurd (found.symm.trans hit) Bool.false_ne_true
      | true =>
        rw [found, if_pos rfl] at ran
        cases listed : state.lbaList.lookup
            (cacheAnswer store run.store poolId pair.key).2.contextEntry.lba with
        | none =>
          rw [listed] at ran
          obtain ⟨held, taken, further⟩ := Option.bind_eq_some_iff.mp ran
          refine roundEnds_remembered holds accepted allows found ?_
            (DeviceRun.took_of_take taken) further
          rw [LbaList.mem_chosen, listed]
          exact Bool.false_ne_true
        | some chosenKey =>
          rw [listed] at ran
          by_cases same : chosenKey = pair.key
          · subst same
            dsimp only at ran
            rw [decide_eq_true rfl] at ran
            exact roundEnds_repeated holds found listed ran
          · dsimp only at ran
            rw [decide_eq_false same] at ran
            exact roundEnds_searches holds accepted allows (fun _ => ⟨chosenKey, listed, same⟩) ran

end Rounds

section Batches

variable {poolId : UInt32} {buf : Nat → PoolBuf}

/-- The rounds of the loop, from the invariant on. Induction follows the pairs: as long as
no round ends the loop, none has left addresses. -/
theorem roundEnds_batchPairs {i : Nat} {pairs : List NvmKvIovec} {state : BatchState}
    {run after : DeviceRun ι} {ended : Except NvmErrorCode Unit × BatchState}
    (holds : BatchHolds state run)
    (ran : (batchPairs store poolId buf i pairs state).run (answerWith store thread outcome) run =
      some (ended, after)) :
    RoundEnds (∃ pair given begun before, BatchReaches store thread outcome poolId buf i pairs state
      run pair given begun before ∧ BatchLeaves store outcome poolId pair given begun before)
      ended after := by
  induction pairs generalizing i state run with
  | nil =>
    cases ran
    refine .keeps ?_ holds
    rintro ⟨pair, given, begun, before, reached, _⟩
    cases reached
  | cons pair rest inductionHypothesis =>
    rw [batchPairs, Program.run_bind] at ran
    obtain ⟨⟨⟨result, between⟩, reached⟩, first, further⟩ := Option.bind_eq_some_iff.mp ran
    have round := roundEnds_batchPair holds first
    cases result with
    | error code =>
      cases further
      rw [batchReaches_failed_iff first]
      exact round
    | ok done =>
      obtain ⟨holding, stays⟩ := round
      rw [batchReaches_next_iff first, or_iff_right stays]
      exact inductionHypothesis holding further

/-- Nothing is chosen and nothing is locked. -/
theorem batchHolds_initial {run : DeviceRun ι} (free : ∀ lba, run.store.safeLbaList lba = none)
    (iovecTrm iovecWrt : Nat → NvmIovec) : BatchHolds (.initial iovecTrm iovecWrt) run where
  held := fun lba taken => absurd (free lba) taken
  flag := iff_of_false Bool.false_ne_true fun some => some rfl
  some := fun some => absurd rfl some

/-- Behind the loop a batch put writes its batches and tells the cache. -/
theorem calls_batchFinish {allowed : StoreOp → Prop} (write : ∀ iovec, allowed (.batchAtomic iovec))
    (remember : ∀ puts, allowed (.cachePuts puts)) (state : BatchState) :
    (batchFinish store state).Calls allowed := by
  have writes : ∀ iovec, (nvmWritev iovec).Calls allowed := by
    intro iovec
    refine ⟨write iovec, fun works => ?_⟩
    cases works <;> trivial
  refine Program.Calls.bind ?_ fun result => ?_
  · unfold batchWrite
    refine .ite (writes _) (Program.Calls.bind (writes _) fun wrote => ?_)
    cases wrote with
    | error code => trivial
    | ok done => exact .ite (writes _) trivial
  · cases result with
    | error code => trivial
    | ok done => exact .ite ⟨remember _, fun _ => trivial⟩ trivial

/-- The release behind the loop empties the safe list just when no round leaves addresses. -/
theorem releases_of_roundEnds {leaves : Prop} {ended : Except NvmErrorCode Unit × BatchState}
    {reached released : DeviceRun ι} (round : RoundEnds leaves ended reached)
    (list : ∀ lba, released.store.safeLbaList lba =
      if ended.2.insertLba = true ∧ lba ∈ ended.2.lbaList.chosen then none
      else reached.store.safeLbaList lba) :
    (∀ lba, released.store.safeLbaList lba = none) ↔ ¬leaves := by
  rw [releasesAll_iff list]
  obtain ⟨result, prepared⟩ := ended
  cases result with
  | error code => exact round
  | ok done => exact iff_of_true round.1.releasesAll round.2

end Batches

/-- A batch put that starts with an empty safe list and returns leaves it empty, whatever the
device does and whatever the outcome, just when it comes to no round that leaves addresses. -/
theorem batch_put_restores_iff (store : NvmKvStore) (thread : ι) (outcome : Nat → Bool)
    (poolId : UInt32) (kvIov : List NvmKvIovec) (allocation : BatchAllocation)
    (run after : DeviceRun ι) (result : Except NvmErrorCode Unit)
    (free : ∀ lba, run.store.safeLbaList lba = none)
    (ran : (kvBatchPut store poolId kvIov allocation).run (answerWith store thread outcome) run =
      some (result, after)) :
    after.store.safeLbaList = run.store.safeLbaList ↔
      ∀ pair given begun before,
        BatchComesTo store thread outcome poolId kvIov allocation run pair given begun before →
          ¬BatchLeaves store outcome poolId pair given begun before := by
  have emptied : after.store.safeLbaList = run.store.safeLbaList ↔
      ∀ lba, after.store.safeLbaList lba = none := by
    rw [funext_iff]
    exact forall_congr' fun lba => by rw [free]
  rw [emptied]
  by_cases refused : BatchAccepted store run.store poolId kvIov → allocation.iovec = none
  · obtain ⟨code, again⟩ := @run_kvBatchPut_refused _ store thread outcome poolId kvIov allocation
      run refused
    rw [again] at ran
    cases ran
    exact iff_of_true free fun pair given begun before comes => absurd refused comes.begins
  · obtain ⟨accepted, arrays⟩ := Classical.not_imp.mp refused
    obtain ⟨⟨iovecTrm, iovecWrt⟩, allocated⟩ := Option.ne_none_iff_exists'.mp arrays
    cases loop : (batchPairs store poolId allocation.buf 0 kvIov (.initial iovecTrm iovecWrt)).run
        (answerWith store thread outcome) run with
    | none =>
      rw [run_kvBatchPut_waits accepted allocated loop] at ran
      cases ran
    | some looped =>
      obtain ⟨⟨result, prepared⟩, reached⟩ := looped
      have round := roundEnds_batchPairs (batchHolds_initial free iovecTrm iovecWrt) loop
      have none_leaves : (∀ pair given begun before, BatchComesTo store thread outcome poolId kvIov
          allocation run pair given begun before →
            ¬BatchLeaves store outcome poolId pair given begun before) ↔
          ¬∃ pair given begun before, BatchReaches store thread outcome poolId allocation.buf 0
            kvIov (.initial iovecTrm iovecWrt) run pair given begun before ∧
              BatchLeaves store outcome poolId pair given begun before := by
        simp only [batchComesTo_iff accepted allocated, not_exists, not_and]
      rw [none_leaves]
      rw [run_kvBatchPut_prepared accepted allocated loop] at ran
      cases result with
      | error code =>
        obtain ⟨released, release, list⟩ :=
          @run_batchRelease_list _ store thread outcome prepared reached
        simp only [release, Option.map_some] at ran
        cases ran
        exact releases_of_roundEnds round list
      | ok done =>
        obtain ⟨⟨ended, finished⟩, finish, last⟩ := Option.bind_eq_some_iff.mp ran
        obtain ⟨released, release, list⟩ :=
          @run_batchRelease_list _ store thread outcome prepared finished
        simp only [release, Option.map_some] at last
        cases last
        have besides : (batchFinish store prepared).Calls fun op => ¬op.OnSafeList :=
          calls_batchFinish (fun _ => id) (fun _ => id) prepared
        rw [run_keeps_safeLbaList besides finish] at list
        exact releases_of_roundEnds round list

/-- A batch of the cached key, with two arrays and what the pool gives as buffers. -/
def replacementBatch (buf : Nat → PoolBuf) : BatchAllocation :=
  ⟨some (fun _ => sectorTrim 0, fun _ => sectorTrim 0), buf⟩

/-- The batch of the cached key restores the safe list; for its one byte every buffer of the pool
is long enough. -/
theorem batch_put_restores_allocated :
    ∃ result after, (kvBatchPut cachingTerabyte 0 [replacement]
        (replacementBatch fun _ => ⟨fun _ => 0, false⟩)).run
          (answerWith cachingTerabyte false fun _ => true) cachedRun = some (result, after) ∧
      after.store.safeLbaList = cachedRun.store.safeLbaList := by
  have ran : ∃ result after, (kvBatchPut cachingTerabyte 0 [replacement]
      (replacementBatch fun _ => ⟨fun _ => 0, false⟩)).run
        (answerWith cachingTerabyte false fun _ => true) cachedRun = some (result, after) :=
    ⟨_, _, rfl⟩
  obtain ⟨result, after, ran⟩ := ran
  refine ⟨result, after, ran, (batch_put_restores_iff cachingTerabyte false _ 0 [replacement] _
    cachedRun after result (fun _ => rfl) ran).mpr ?_⟩
  rintro pair given begun before ⟨_, iovecTrm, iovecWrt, _, comes⟩ leaves
  cases comes with
  | here =>
    cases leaves with
    | unfit _ _ _ _ unfit =>
      have few : (writeLayout cachingTerabyte.capabilities 1 replacement.value 1).iovCount ≤
          cachingTerabyte.capabilities.nvmMaxNumIovs := by decide
      exact unfit ⟨_, _, rfl, (Nat.zero_add _).trans_le few⟩
    | loses _ _ _ _ loses => exact loses.1 rfl
  | later _ further => cases further

/-- When no buffer is long enough the batch of the cached key fails and leaves its address on the
list. -/
theorem batch_put_leaves_remembered :
    ¬∀ (store : NvmKvStore) (outcome : Nat → Bool) (poolId : UInt32) (kvIov : List NvmKvIovec)
      (allocation : BatchAllocation) (run after : DeviceRun Bool)
      (result : Except NvmErrorCode Unit), (∀ lba, run.store.safeLbaList lba = none) →
      (kvBatchPut store poolId kvIov allocation).run (answerWith store false outcome) run =
        some (result, after) →
      after.store.safeLbaList = run.store.safeLbaList := by
  intro restores
  have ran : (kvBatchPut cachingTerabyte 0 [unalignedReplacement]
      (replacementBatch fun _ => ⟨fun _ => 0, false⟩)).run
      (answerWith cachingTerabyte false fun _ => true) cachedRun =
        some (.error .outOfMemory, cachedRun.hold false 130334720) := rfl
  have list := restores _ _ _ _ _ _ _ _ (fun _ => rfl) ran
  have held := congrFun list 130334720
  change some false = none at held
  cases held

end Nvmkv
