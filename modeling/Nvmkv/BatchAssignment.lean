import Nvmkv.BatchLocks
import Nvmkv.SelfWaits

/-!
# The addresses that a batch assigns

Without a cache every address of a batch comes from a search. A search that succeeds ends
at an address with an unmapped window, which it inserts, or at a pair of the key. The
addresses chosen before have unmapped windows and are held, or they have pairs of other keys
(`BatchAssigned`), and so no address is assigned twice.

The addresses chosen before are looked up only where the search begins. Behind an address
that it passes by it may come to one whose window is unmapped because the batch has not
written there yet. It then waits for an address that its own batch holds. A batch put that is
alone comes to its end exactly when no search runs into such an address.
-/

namespace Nvmkv

variable {ι : Type} {store : NvmKvStore} {thread : ι} {outcome : Nat → Bool}

/-- A search runs into a chosen address: it passes by the addresses before, and the window
is unmapped. -/
def RunsInto (store : NvmKvStore) (outcome : Nat → Bool) (media : Media) (poolId : UInt32)
    (key : List UInt8) (chosen : List Nat) : (operations : Nat) → List Nat → Prop
  | _, [] => False
  | operations, lba :: rest =>
      outcome operations = true ∧ windowFree store media lba = true ∧ lba ∈ chosen ∨
        PassesBy store outcome media poolId key operations lba ∧
          RunsInto store outcome media poolId key chosen (operations + 2) rest

/-- The first search of a batch runs into nothing. Induction follows the addresses. -/
theorem not_runsInto_nil {media : Media} {poolId : UInt32} {key : List UInt8} {operations : Nat}
    {lbas : List Nat} : ¬RunsInto store outcome media poolId key [] operations lbas := by
  induction lbas generalizing operations with
  | nil => exact id
  | cons lba rest inductionHypothesis =>
    rintro (⟨_, _, none⟩ | ⟨_, further⟩)
    · cases none
    · exact inductionHypothesis further

section Search

variable {clock operations lba : Nat} {media : Media} {poolId : UInt32} {pair : NvmKvIovec}
  {insertLba : Bool} {lbas rest chosen : List Nat} {locked : Nat → Option ι}

/-- A search with success ends at an address that suits, and has inserted it when the window
is unmapped. Induction follows the addresses. -/
theorem searchWith_inserted
    (success :
      (searchWith store outcome clock media poolId pair insertLba operations lbas).retCode =
      .ok ()) :
    let ends := searchWith store outcome clock media poolId pair insertLba operations lbas
    windowFree store media ends.keyHashVal = true ∧ ends.taken = some ends.keyHashVal ∨
      windowFree store media ends.keyHashVal = false ∧
        holds store media poolId pair.key ends.keyHashVal = true := by
  induction lbas generalizing insertLba operations with
  | nil => cases success
  | cons lba rest inductionHypothesis =>
    by_cases passes : PassesBy store outcome media poolId pair.key operations lba
    · rw [searchWith_passes passes] at success ⊢
      exact inductionHypothesis success
    · obtain ⟨_, address, ⟨⟨code, error⟩, _⟩ | ⟨_, _, way⟩⟩ :=
        @searchWith_stays _ outcome clock _ _ _ _ pair insertLba rest passes
      · rw [success] at error
        cases error
      · dsimp only
        rw [address]
        exact way.imp id fun held => ⟨held.1, held.2.1⟩

/-- A search removes none but its first address. -/
theorem searchWith_dropped_first {first : Nat}
    (removes : (searchWith store outcome clock media poolId pair insertLba operations
      (first :: rest)).dropped = some lba) : lba = first := by
  by_cases passes : PassesBy store outcome media poolId pair.key operations first
  · rw [searchWith_passes passes] at removes
    dsimp only at removes
    split_ifs at removes
    exact (Option.some.inj removes).symm
  · rw [(searchWith_stays passes).dropped] at removes
    cases removes

/-- A search that holds nothing is refused an address just when it runs into a chosen one,
provided that the unmapped windows on the safe list are those chosen and that no pair of the
key is on it. Induction follows the addresses. -/
theorem searchWith_refused
    (windows : ∀ lba, windowFree store media lba = true → (locked lba ≠ none ↔ lba ∈ chosen))
    (own : ∀ lba, windowFree store media lba = false →
      holds store media poolId pair.key lba = true → locked lba = none) :
    (∃ lba, (searchWith store outcome clock media poolId pair false operations lbas).taken =
        some lba ∧ locked lba ≠ none) ↔
      RunsInto store outcome media poolId pair.key chosen operations lbas := by
  induction lbas generalizing operations with
  | nil =>
    refine iff_of_false ?_ id
    rintro ⟨lba, wrong, _⟩
    cases wrong
  | cons lba rest inductionHypothesis =>
    rw [RunsInto]
    by_cases passes : PassesBy store outcome media poolId pair.key operations lba
    · rw [searchWith_passes passes, inductionHypothesis]
      constructor
      · exact fun further => Or.inr ⟨passes, further⟩
      · rintro (⟨_, free, _⟩ | ⟨_, further⟩)
        · exact absurd (free.symm.trans passes.2.1) Bool.noConfusion
        · exact further
    · cases works : outcome operations with
      | false =>
        refine iff_of_false ?_ ?_
        · rintro ⟨other, taken, _⟩
          simp only [searchWith, works, if_true] at taken
          cases taken
        · rintro (⟨wrong, _⟩ | ⟨gone, _⟩)
          · cases wrong
          · exact passes gone
      | true =>
        cases free : windowFree store media lba with
        | true =>
          have taken : (searchWith store outcome clock media poolId pair false operations
              (lba :: rest)).taken = some lba := by
            simp only [searchWith, works, free, Bool.true_eq_false, if_true, if_false]
          rw [taken]
          constructor
          · rintro ⟨other, same, refused⟩
            cases same
            exact Or.inl ⟨rfl, rfl, (windows lba free).mp refused⟩
          · rintro (⟨_, _, member⟩ | ⟨gone, _⟩)
            · exact ⟨lba, rfl, (windows lba free).mpr member⟩
            · exact absurd gone passes
        | false =>
          refine iff_of_false ?_ ?_
          · rintro ⟨other, taken, refused⟩
            obtain ⟨_, _, ⟨_, _, none⟩ | ⟨_, _, ⟨window, _⟩ | ⟨_, held, one⟩⟩⟩ :=
              @searchWith_stays _ outcome clock _ _ _ _ pair false rest passes
            · rw [none] at taken
              cases taken
            · rw [free] at window
              cases window
            · rw [one] at taken
              cases taken
              exact refused (own lba free held)
          · rintro (⟨_, wrong, _⟩ | ⟨gone, _⟩)
            · cases wrong
            · exact passes gone

end Search

/-- In front of a pair: the addresses assigned are those chosen, no address is chosen twice,
and each of them has an unmapped window and is on the safe list, or has a pair of the key it
was chosen for. -/
structure BatchAssigned (store : NvmKvStore) (poolId : UInt32) (keys : List (List UInt8))
    (state : BatchState) (run : DeviceRun ι) : Prop where
  locks : BatchHolds state run
  puts : state.puts.map NvmKvCachePut.lba = state.lbaList.chosen
  nodup : state.lbaList.chosen.Nodup
  keys : ∀ entry ∈ state.lbaList, entry.2 ∈ keys
  known : ∀ entry ∈ state.lbaList,
    windowFree store run.store.media entry.1 = true ∧ run.store.safeLbaList entry.1 ≠ none ∨
      windowFree store run.store.media entry.1 = false ∧
        holds store run.store.media poolId entry.2 entry.1 = true

section Invariant

variable {poolId : UInt32} {keys : List (List UInt8)} {pair : NvmKvIovec} {state : BatchState}
  {run found : DeviceRun ι}

/-- An address that is chosen was chosen for a key. -/
theorem LbaList.exists_of_chosen {lbaList : LbaList} {lba : Nat} (member : lba ∈ lbaList.chosen) :
    ∃ key, (lba, key) ∈ lbaList := by
  obtain ⟨⟨address, key⟩, listed, rfl⟩ := List.mem_map.mp member
  exact ⟨key, listed⟩

namespace BatchAssigned

variable (assigned : BatchAssigned store poolId keys state run)

include assigned

/-- The unmapped windows on the safe list are those chosen. -/
theorem windows (lba : Nat) (free : windowFree store run.store.media lba = true) :
    run.store.safeLbaList lba ≠ none ↔ lba ∈ state.lbaList.chosen := by
  constructor
  · exact assigned.locks.held lba
  · intro member
    obtain ⟨key, listed⟩ := LbaList.exists_of_chosen member
    rcases assigned.known _ listed with ⟨_, held⟩ | ⟨mapped, _⟩
    · exact held
    · exact absurd (free.symm.trans mapped) Bool.noConfusion

/-- An address with a pair of another key than those of the batch is not chosen. -/
theorem own_new {key : List UInt8} (new : key ∉ keys) (lba : Nat)
    (mapped : windowFree store run.store.media lba = false)
    (held : holds store run.store.media poolId key lba = true) : lba ∉ state.lbaList.chosen := by
  intro member
  obtain ⟨other, listed⟩ := LbaList.exists_of_chosen member
  rcases assigned.known _ listed with ⟨free, _⟩ | ⟨_, others⟩
  · exact absurd (free.symm.trans mapped) Bool.noConfusion
  · obtain ⟨_, same⟩ := headerMatches_unique held others
    exact new (same ▸ assigned.keys _ listed)

/-- Nor is it on the safe list. -/
theorem own_unlisted {key : List UInt8} (new : key ∉ keys) (lba : Nat)
    (mapped : windowFree store run.store.media lba = false)
    (held : holds store run.store.media poolId key lba = true) :
    run.store.safeLbaList lba = none := by
  by_contra taken
  exact assigned.own_new new lba mapped held (assigned.locks.held lba taken)

/-- An address that is not chosen is not on the safe list. -/
theorem unlisted {lba : Nat} (unchosen : lba ∉ state.lbaList.chosen) :
    run.store.safeLbaList lba = none := by
  by_contra taken
  exact unchosen (assigned.locks.held lba taken)

/-- The search of a batch removes nothing that is on the safe list. -/
theorem dropped_unlisted {insertLba : Bool} {first operations : Nat} {rest : List Nat}
    (unchosen : first ∉ state.lbaList.chosen) :
    ((run.counted operations).drop (searchWith store outcome run.store.clock run.store.media poolId
      pair insertLba run.operations (first :: rest)).dropped).store.safeLbaList =
        run.store.safeLbaList := by
  cases removes : (searchWith store outcome run.store.clock run.store.media poolId pair insertLba
      run.operations (first :: rest)).dropped with
  | none => rfl
  | some lba =>
    obtain rfl := searchWith_dropped_first removes
    change Function.update run.store.safeLbaList lba none = _
    rw [← assigned.unlisted unchosen, Function.update_eq_self]

/-- The search of a batch waits just when it runs into a chosen address. The flag does not
matter: the address at which the search begins is not chosen. -/
theorem search_waits_iff (new : pair.key ∉ keys) (short : pair.key.length ≤ nvmKvMaxKeySize)
    {insertLba : Bool} {first : Nat} {rest : List Nat} {buf : Region}
    (unchosen : first ∉ state.lbaList.chosen) :
    (kvGenLbaProbes store poolId pair (first :: rest) insertLba buf).run
        (answerWith store thread outcome) run = none ↔
      RunsInto store outcome run.store.media poolId pair.key state.lbaList.chosen run.operations
        (first :: rest) := by
  obtain ⟨read, ends⟩ := run_kvGenLbaProbes_with store thread outcome short (first :: rest)
    insertLba buf run
  rw [ends]
  dsimp only
  rw [Option.map_eq_none_iff, DeviceRun.take_eq_none_iff, assigned.dropped_unlisted unchosen,
    RunsInto]
  by_cases passes : PassesBy store outcome run.store.media poolId pair.key run.operations first
  · rw [searchWith_passes passes]
    dsimp only
    rw [searchWith_refused assigned.windows (assigned.own_unlisted new)]
    constructor
    · exact fun further => Or.inr ⟨passes, further⟩
    · rintro (⟨_, _, member⟩ | ⟨_, further⟩)
      · exact absurd member unchosen
      · exact further
  · have free := assigned.unlisted unchosen
    refine iff_of_false ?_ ?_
    · rintro ⟨lba, taken, refused⟩
      obtain ⟨_, _, ⟨_, _, none⟩ | ⟨_, _, ⟨_, one⟩ | ⟨_, _, one⟩⟩⟩ :=
        @searchWith_stays _ outcome run.store.clock _ _ _ _ pair insertLba rest passes
      · rw [none] at taken
        cases taken
      · rw [one] at taken
        cases taken
        exact refused free
      · rw [one] at taken
        split_ifs at taken
        cases taken
        exact refused free
    · rintro (⟨_, _, member⟩ | ⟨gone, _⟩)
      · exact unchosen member
      · exact passes gone

/-- A search of a batch that succeeds ends at a new address, which then is known as those
chosen before are. -/
theorem search_places (new : pair.key ∉ keys) (short : pair.key.length ≤ nvmKvMaxKeySize)
    {insertLba : Bool} {first : Nat} {rest : List Nat} {buf : Region} {placed : GenLba}
    (unchosen : first ∉ state.lbaList.chosen)
    (ran : (kvGenLbaProbes store poolId pair (first :: rest) insertLba buf).run
      (answerWith store thread outcome) run = some (placed, found))
    (success : placed.retCode = .ok ()) :
    placed.keyHashVal ∉ state.lbaList.chosen ∧
      (∀ lba, run.store.safeLbaList lba ≠ none → found.store.safeLbaList lba ≠ none) ∧
      (windowFree store run.store.media placed.keyHashVal = true ∧
          found.store.safeLbaList placed.keyHashVal ≠ none ∨
        windowFree store run.store.media placed.keyHashVal = false ∧
          holds store run.store.media poolId pair.key placed.keyHashVal = true) := by
  obtain ⟨read, ends⟩ := run_kvGenLbaProbes_with store thread outcome short (first :: rest)
    insertLba buf run
  rw [ends] at ran
  dsimp only at ran
  obtain ⟨reached, taken, same⟩ := Option.map_eq_some_iff.mp ran
  obtain ⟨rfl, rfl⟩ := Prod.mk.inj same
  have list := @dropped_unlisted _ _ outcome _ _ pair _ _ assigned insertLba first
    (searchWith store outcome run.store.clock run.store.media poolId pair insertLba run.operations
      (first :: rest)).operations rest unchosen
  have grows : ∀ lba, run.store.safeLbaList lba ≠ none → reached.store.safeLbaList lba ≠ none := by
    intro lba locked
    cases takes : (searchWith store outcome run.store.clock run.store.media poolId pair insertLba
        run.operations (first :: rest)).taken with
    | none =>
      rw [takes] at taken
      cases taken
      rwa [list]
    | some inserted =>
      rw [takes] at taken
      rw [(DeviceRun.took_of_take taken).2, list, Function.update_apply]
      split_ifs
      · exact Option.some_ne_none thread
      · exact locked
  refine ⟨?_, grows, ?_⟩
  · rcases searchWith_inserted success with ⟨free, inserts⟩ | ⟨mapped, held⟩
    · rw [inserts] at taken
      obtain ⟨unlocked, _⟩ := DeviceRun.took_of_take taken
      rw [list] at unlocked
      exact fun member => (assigned.windows _ free).mpr member unlocked
    · exact assigned.own_new new _ mapped held
  · rcases searchWith_inserted success with ⟨free, inserts⟩ | ⟨mapped, held⟩
    · rw [inserts] at taken
      left
      refine ⟨free, ?_⟩
      rw [(DeviceRun.took_of_take taken).2]
      intro unlocked
      rw [SearchEnd.result, Function.update_self] at unlocked
      cases unlocked
    · exact Or.inr ⟨mapped, held⟩

end BatchAssigned

end Invariant

/-- A search that begins at a duplicate has the key in the list. Induction follows the
addresses that are skipped. -/
theorem skipChosen_duplicate_key {lbaList : LbaList} {key : List UInt8} {lbas : List Nat}
    {lba : Nat} (starts : skipChosen lbaList key lbas = .duplicate lba) : (lba, key) ∈ lbaList := by
  induction lbas with
  | nil => cases starts
  | cons first tail inductionHypothesis =>
    cases tail with
    | nil => cases starts
    | cons next rest =>
      rw [skipChosen] at starts
      split at starts
      · cases starts
      · rename_i chosenKey listed
        split_ifs at starts with same
        · obtain rfl := BatchStart.duplicate.inj starts
          obtain ⟨before, after, split, _⟩ := List.lookup_eq_some_iff.mp listed
          rw [split, ← same]
          exact List.mem_append_right _ List.mem_cons_self
        · exact inductionHypothesis starts

section Rounds

variable {poolId : UInt32} {keys : List (List UInt8)} {pair : NvmKvIovec} {buf : PoolBuf}
  {state : BatchState} {run found : DeviceRun ι}

/-- The search of a round runs into an address of its own batch. -/
def BatchRunsInto (store : NvmKvStore) (outcome : Nat → Bool) (poolId : UInt32)
    (pair : NvmKvIovec) (buf : PoolBuf) (state : BatchState) (run : DeviceRun ι) : Prop :=
  pairAccepted store pair = true ∧ BatchFits store pair buf state ∧
    ∃ lbas, skipChosen state.lbaList pair.key (store.probes poolId pair.key) = .probes lbas ∧
      RunsInto store outcome run.store.media poolId pair.key state.lbaList.chosen run.operations
        lbas

/-- The key of an accepted pair is not too long. -/
theorem short_of_accepted (accepted : pairAccepted store pair = true) :
    pair.key.length ≤ nvmKvMaxKeySize := by
  rw [pairAccepted, Bool.and_eq_true] at accepted
  exact (of_decide_eq_true accepted.1).2

/-- A round without a cache searches for its address. -/
theorem run_batchPair_uncached (uncached : store.cacheSize = 0)
    (accepted : pairAccepted store pair = true) :
    (batchPair store poolId pair buf state).run (answerWith store thread outcome) run =
      (batchPlace store poolId pair buf state ⟨false, .zero, state.insertLba⟩).run
        (answerWith store thread outcome) run := by
  have unasked : cacheAnswer store run.store poolId pair.key = (false, .zero) :=
    if_neg (by omega)
  have allows : cacheRefuses store run.store poolId pair = false := by
    simp only [cacheRefuses, unasked, Bool.false_and]
  rw [run_batchPair_accepted accepted]
  simp only [unasked, allows, Bool.false_eq_true, if_false]

/-- A round whose first address that is not chosen is free takes that one. Nothing is trimmed
for its pair. -/
theorem run_batchPair_fresh {layout : WriteLayout} {given : Region} {lba : Nat} {later : List Nat}
    (uncached : store.cacheSize = 0) (accepted : pairAccepted store pair = true)
    (allocated : kvAllocForWrite store.capabilities pair.key.length pair.value pair.valueLen buf =
      .ok (layout, given))
    (few : state.finalIovCount + layout.iovCount ≤ store.capabilities.nvmMaxNumIovs)
    (starts : skipChosen state.lbaList pair.key (store.probes poolId pair.key) =
      .probes (lba :: later))
    (works : outcome run.operations = true) (free : windowFree store run.store.media lba = true)
    (unheld : run.store.safeLbaList lba = none) (noTrims : state.idxTrm = 0) :
    ∃ ended, (batchPair store poolId pair buf state).run (answerWith store thread outcome) run =
        some ((.ok (), ended), (run.counted (run.operations + 1)).hold thread lba) ∧
      ended.lbaList = state.lbaList.insert lba pair.key ∧
      ended.finalIovCount = state.finalIovCount + layout.iovCount ∧ ended.idxTrm = 0 ∧
      ended.puts.map NvmKvCachePut.lba = state.puts.map NvmKvCachePut.lba ++ [lba] := by
  have ends := @searchWith_fresh store outcome run.store.clock run.operations lba run.store.media
    poolId pair state.insertLba later works free
  obtain ⟨read, search⟩ := @run_kvGenLbaProbes_with _ store thread outcome poolId pair
    (short_of_accepted accepted) (lba :: later) state.insertLba given run
  dsimp only at search
  rw [ends, DeviceRun.take_unlisted (by exact unheld), Option.map_some] at search
  have found : (batchLba store poolId pair ⟨false, .zero, state.insertLba⟩ given
      state.lbaList).run (answerWith store thread outcome) run =
        some (⟨.ok (), 0, lba, true, read⟩,
          (run.counted (run.operations + 1)).hold thread lba) := by
    unfold batchLba kvGenLba
    dsimp only
    rw [if_neg Bool.false_ne_true, starts]
    exact search
  have trims : kvProcessForTrim store.capabilities pair.valueLen 0 lba = .ok [] := by
    rw [kvProcessForTrim, if_neg (Nat.not_lt_zero _), if_neg (not_not.mpr rfl)]
  have under : ¬store.capabilities.nvmMaxNumIovs / 2 <
      state.idxTrm + ([] : List NvmIovec).length := by
    rw [noTrims]
    exact Nat.not_lt_zero _
  rw [run_batchPair_uncached uncached accepted]
  simp only [batchPlace, allocated, if_neg (Nat.not_lt.mpr few), Program.run_bind, found,
    Option.bind_some, batchPrepare, trims, if_neg under, run_kvProcessForWrite_with,
    Program.run_pure]
  refine ⟨_, rfl, rfl, rfl, ?_, ?_⟩
  · change state.idxTrm + 0 = 0
    exact noTrims
  · exact List.map_append

/-- The search of a round waits just when it runs into a chosen address. -/
theorem kvGenLba_waits_iff (assigned : BatchAssigned store poolId keys state run)
    (new : pair.key ∉ keys) (short : pair.key.length ≤ nvmKvMaxKeySize) {given : Region} :
    (kvGenLba store poolId pair given state.insertLba (some state.lbaList)).run
        (answerWith store thread outcome) run = none ↔
      ∃ lbas, skipChosen state.lbaList pair.key (store.probes poolId pair.key) = .probes lbas ∧
        RunsInto store outcome run.store.media poolId pair.key state.lbaList.chosen run.operations
          lbas := by
  unfold kvGenLba
  dsimp only
  cases starts : skipChosen state.lbaList pair.key (store.probes poolId pair.key) with
  | duplicate lba =>
    refine iff_of_false (fun waits => by cases waits) ?_
    rintro ⟨lbas, wrong, _⟩
    cases wrong
  | exhausted lba =>
    refine iff_of_false (fun waits => by cases waits) ?_
    rintro ⟨lbas, wrong, _⟩
    cases wrong
  | probes lbas =>
    obtain ⟨skipped, first, rest, _, rfl, unchosen, _⟩ := skipChosen_probes starts
    rw [assigned.search_waits_iff new short unchosen]
    constructor
    · exact fun runs => ⟨_, rfl, runs⟩
    · rintro ⟨lbas, same, runs⟩
      cases same
      exact runs

/-- A search of a round that succeeds finds a new address. -/
theorem kvGenLba_places (assigned : BatchAssigned store poolId keys state run)
    (new : pair.key ∉ keys) (short : pair.key.length ≤ nvmKvMaxKeySize) {given : Region}
    {placed : GenLba}
    (ran : (kvGenLba store poolId pair given state.insertLba (some state.lbaList)).run
      (answerWith store thread outcome) run = some (placed, found))
    (success : placed.retCode = .ok ()) :
    placed.keyHashVal ∉ state.lbaList.chosen ∧
      (∀ lba, run.store.safeLbaList lba ≠ none → found.store.safeLbaList lba ≠ none) ∧
      (windowFree store run.store.media placed.keyHashVal = true ∧
          found.store.safeLbaList placed.keyHashVal ≠ none ∨
        windowFree store run.store.media placed.keyHashVal = false ∧
          holds store run.store.media poolId pair.key placed.keyHashVal = true) := by
  unfold kvGenLba at ran
  dsimp only at ran
  cases starts : skipChosen state.lbaList pair.key (store.probes poolId pair.key) with
  | duplicate lba => exact absurd (assigned.keys _ (skipChosen_duplicate_key starts)) new
  | exhausted lba =>
    rw [starts] at ran
    cases ran
    cases success
  | probes lbas =>
    obtain ⟨skipped, first, rest, _, rfl, unchosen, _⟩ := skipChosen_probes starts
    rw [starts] at ran
    exact assigned.search_places new short unchosen ran success

/-- A round waits just when its search runs into a chosen address. -/
theorem batchPair_waits_iff (uncached : store.cacheSize = 0)
    (assigned : BatchAssigned store poolId keys state run) (new : pair.key ∉ keys) :
    (batchPair store poolId pair buf state).run (answerWith store thread outcome) run = none ↔
      BatchRunsInto store outcome poolId pair buf state run := by
  cases accepted : pairAccepted store pair with
  | false =>
    rw [run_batchPair_rejected accepted]
    refine iff_of_false (fun waits => by cases waits) fun runs => ?_
    exact Bool.false_ne_true (accepted.symm.trans runs.1)
  | true =>
    rw [run_batchPair_uncached uncached accepted]
    by_cases fits : BatchFits store pair buf state
    · obtain ⟨given, waits, ends⟩ := @run_batchPlace_fit _ store thread outcome poolId pair buf
        state ⟨false, .zero, state.insertLba⟩ run fits
      have place : (batchPlace store poolId pair buf state ⟨false, .zero, state.insertLba⟩).run
            (answerWith store thread outcome) run = none ↔
          (kvGenLba store poolId pair given state.insertLba (some state.lbaList)).run
            (answerWith store thread outcome) run = none := by
        constructor
        · intro stuck
          by_contra returns
          obtain ⟨⟨placed, after⟩, search⟩ := Option.ne_none_iff_exists'.mp returns
          obtain ⟨ended, again, _⟩ := ends placed after search
          rw [again] at stuck
          cases stuck
        · exact waits
      rw [place, kvGenLba_waits_iff assigned new (short_of_accepted accepted)]
      constructor
      · exact fun runs => ⟨accepted, fits, runs⟩
      · exact fun runs => runs.2.2
    · obtain ⟨code, prepared, again, _⟩ := @run_batchPlace_unfit _ store thread outcome poolId pair
        buf state ⟨false, .zero, state.insertLba⟩ run fits
      rw [again]
      exact iff_of_false (fun waits => by cases waits) fun runs => fits runs.2.1

/-- A round that does not end the loop keeps the invariant. -/
theorem assigned_batchPair {between : BatchState} {reached : DeviceRun ι}
    (uncached : store.cacheSize = 0) (assigned : BatchAssigned store poolId keys state run)
    (new : pair.key ∉ keys)
    (ran : (batchPair store poolId pair buf state).run (answerWith store thread outcome) run =
      some ((.ok (), between), reached)) :
    BatchAssigned store poolId (keys ++ [pair.key]) between reached := by
  obtain ⟨locks, _⟩ := roundEnds_batchPair assigned.locks ran
  obtain ⟨_, media⟩ := run_searches (searches_batchPair pair buf state) ran
  have accepted : pairAccepted store pair = true := by
    by_contra rejected
    rw [run_batchPair_rejected (Bool.not_eq_true _ ▸ rejected)] at ran
    cases ran
  rw [run_batchPair_uncached uncached accepted] at ran
  have fits : BatchFits store pair buf state := by
    by_contra unfit
    obtain ⟨code, prepared, again, _⟩ := @run_batchPlace_unfit _ store thread outcome poolId pair
      buf state ⟨false, .zero, state.insertLba⟩ run unfit
    rw [again] at ran
    cases ran
  obtain ⟨given, waits, ends⟩ := @run_batchPlace_fit _ store thread outcome poolId pair buf state
    ⟨false, .zero, state.insertLba⟩ run fits
  cases search : (batchLba store poolId pair ⟨false, .zero, state.insertLba⟩ given
      state.lbaList).run (answerWith store thread outcome) run with
  | none =>
    rw [waits search] at ran
    cases ran
  | some result =>
    obtain ⟨placed, after⟩ := result
    obtain ⟨ended, again, round⟩ := ends placed after search
    rw [again] at ran
    cases ran
    have success : placed.retCode = .ok () := by
      cases returned : placed.retCode with
      | error code =>
        have failed := (round.failed code returned).1
        cases failed
      | ok done => rfl
    obtain ⟨list, puts⟩ := round.placed success
    obtain ⟨unchosen, grows, known⟩ :=
      kvGenLba_places assigned new (short_of_accepted accepted) search success
    have entries : between.lbaList = state.lbaList ++ [(placed.keyHashVal, pair.key)] := by
      rw [list, LbaList.insert, if_neg fun listed => unchosen (LbaList.mem_chosen.mpr listed)]
    have chosen : between.lbaList.chosen = state.lbaList.chosen ++ [placed.keyHashVal] := by
      rw [entries, LbaList.chosen, List.map_append]
      rfl
    refine ⟨locks, ?_, ?_, ?_, ?_⟩
    · rw [puts rfl, chosen, assigned.puts]
    · rw [chosen, List.nodup_append]
      refine ⟨assigned.nodup, List.nodup_singleton _, ?_⟩
      intro lba member other single same
      rw [List.mem_singleton] at single
      exact unchosen (single ▸ same ▸ member)
    · intro entry member
      rw [entries, List.mem_append, List.mem_singleton] at member
      rcases member with earlier | rfl
      · exact List.mem_append_left _ (assigned.keys entry earlier)
      · exact List.mem_append_right _ (List.mem_singleton_self _)
    · intro entry member
      rw [media]
      rw [entries, List.mem_append, List.mem_singleton] at member
      rcases member with earlier | rfl
      · exact (assigned.known entry earlier).imp (fun held => ⟨held.1, grows _ held.2⟩) id
      · exact known

end Rounds

section Batches

variable {poolId : UInt32} {keys : List (List UInt8)} {buf : Nat → PoolBuf} {i : Nat}
  {pairs : List NvmKvIovec} {state : BatchState} {run : DeviceRun ι}

/-- The keys of a batch are different from those before and from one another. -/
theorem nodup_keys_cons {pair : NvmKvIovec}
    (distinct : (keys ++ (pair :: pairs).map NvmKvIovec.key).Nodup) :
    pair.key ∉ keys ∧ ((keys ++ [pair.key]) ++ pairs.map NvmKvIovec.key).Nodup := by
  rw [List.map_cons] at distinct
  refine ⟨fun member => ?_, by rwa [List.append_assoc, List.singleton_append]⟩
  exact (List.nodup_append.mp distinct).2.2 _ member _ List.mem_cons_self rfl

/-- The invariant holds in front of every round. Induction follows the rounds. -/
theorem assigned_reaches (uncached : store.cacheSize = 0)
    (assigned : BatchAssigned store poolId keys state run)
    (distinct : (keys ++ pairs.map NvmKvIovec.key).Nodup) {pair : NvmKvIovec}
    {given : PoolBuf} {begun : BatchState} {before : DeviceRun ι}
    (comes : BatchReaches store thread outcome poolId buf i pairs state run pair given begun
      before) :
    ∃ earlier, BatchAssigned store poolId earlier begun before := by
  induction comes generalizing keys with
  | here => exact ⟨keys, assigned⟩
  | later ran _ inductionHypothesis =>
    obtain ⟨new, others⟩ := nodup_keys_cons distinct
    exact inductionHypothesis (assigned_batchPair uncached assigned new ran) others

/-- The invariant holds behind the loop. Induction follows the pairs. -/
theorem assigned_batchPairs (uncached : store.cacheSize = 0)
    (assigned : BatchAssigned store poolId keys state run)
    (distinct : (keys ++ pairs.map NvmKvIovec.key).Nodup) {prepared : BatchState}
    {reached : DeviceRun ι}
    (ran : (batchPairs store poolId buf i pairs state).run (answerWith store thread outcome) run =
      some ((.ok (), prepared), reached)) :
    ∃ earlier, BatchAssigned store poolId earlier prepared reached := by
  induction pairs generalizing keys i state run with
  | nil =>
    cases ran
    exact ⟨keys, assigned⟩
  | cons pair rest inductionHypothesis =>
    obtain ⟨new, others⟩ := nodup_keys_cons distinct
    rw [batchPairs, Program.run_bind] at ran
    obtain ⟨⟨⟨result, between⟩, middle⟩, first, further⟩ := Option.bind_eq_some_iff.mp ran
    cases result with
    | error code => cases further
    | ok done =>
      exact inductionHypothesis (assigned_batchPair uncached assigned new first) others further

/-- The loop waits just when it comes to a round that runs into an address of the batch.
Induction follows the pairs. -/
theorem batchPairs_waits_iff (uncached : store.cacheSize = 0)
    (assigned : BatchAssigned store poolId keys state run)
    (distinct : (keys ++ pairs.map NvmKvIovec.key).Nodup) :
    (batchPairs store poolId buf i pairs state).run (answerWith store thread outcome) run = none ↔
      ∃ pair given begun before, BatchReaches store thread outcome poolId buf i pairs state run pair
        given begun before ∧ BatchRunsInto store outcome poolId pair given begun before := by
  induction pairs generalizing keys i state run with
  | nil =>
    refine iff_of_false (fun waits => by cases waits) ?_
    rintro ⟨_, _, _, _, comes, _⟩
    cases comes
  | cons pair rest inductionHypothesis =>
    obtain ⟨new, others⟩ := nodup_keys_cons distinct
    rw [batchPairs, Program.run_bind]
    cases first : (batchPair store poolId pair (buf i) state).run (answerWith store thread outcome)
        run with
    | none =>
      have runs := (batchPair_waits_iff uncached assigned new).mp first
      exact iff_of_true rfl ⟨pair, buf i, state, run, .here, runs⟩
    | some ended =>
      obtain ⟨⟨result, between⟩, middle⟩ := ended
      have returns : ¬BatchRunsInto store outcome poolId pair (buf i) state run := by
        intro runs
        have waits : (batchPair store poolId pair (buf i) state).run
            (answerWith store thread outcome) run = none :=
          (batchPair_waits_iff uncached assigned new).mpr runs
        rw [first] at waits
        cases waits
      rw [Option.bind_some]
      cases result with
      | error code =>
        rw [batchReaches_failed_iff first]
        exact iff_of_false (fun waits => by cases waits) returns
      | ok done =>
        rw [batchReaches_next_iff first, or_iff_right returns]
        exact inductionHypothesis (assigned_batchPair uncached assigned new first) others

/-- Nothing is chosen, assigned or locked. -/
theorem assigned_initial (free : ∀ lba, run.store.safeLbaList lba = none)
    (iovecTrm iovecWrt : Nat → NvmIovec) :
    BatchAssigned store poolId [] (.initial iovecTrm iovecWrt) run where
  locks := batchHolds_initial free iovecTrm iovecWrt
  puts := rfl
  nodup := List.nodup_nil
  keys := by
    intro entry none
    cases none
  known := by
    intro entry none
    cases none

end Batches

section Calls

variable {poolId : UInt32} {kvIov : List NvmKvIovec} {allocation : BatchAllocation}
  {run : DeviceRun ι} {iovecTrm iovecWrt : Nat → NvmIovec}

/-- Behind the loop a batch put does not wait. -/
theorem kvBatchPut_returns (accepted : BatchAccepted store run.store poolId kvIov)
    (allocated : allocation.iovec = some (iovecTrm, iovecWrt))
    {looped : (Except NvmErrorCode Unit × BatchState) × DeviceRun ι}
    (loop : (batchPairs store poolId allocation.buf 0 kvIov (.initial iovecTrm iovecWrt)).run
      (answerWith store thread outcome) run = some looped) :
    ((kvBatchPut store poolId kvIov allocation).run
      (answerWith store thread outcome) run).isSome := by
  obtain ⟨⟨result, prepared⟩, reached⟩ := looped
  rw [run_kvBatchPut_prepared accepted allocated loop]
  cases result with
  | error code =>
    obtain ⟨released, release, _⟩ :=
      @run_batchRelease_list _ store thread outcome prepared reached
    simp only [release, Option.map_some, Option.isSome_some]
  | ok done =>
    have plain : (batchFinish store prepared).Calls fun op => ¬op.OnSafeList ∧ op ≠ .never := by
      refine calls_batchFinish (fun iovec => ⟨id, ?_⟩) (fun puts => ⟨id, ?_⟩) prepared
      · intro wrong
        cases wrong
      · intro wrong
        cases wrong
    obtain ⟨ended, finished, finish⟩ :=
      @run_besides_returns _ store thread outcome _ _ plain reached
    obtain ⟨released, release, _⟩ :=
      @run_batchRelease_list _ store thread outcome prepared finished
    simp only [finish, Option.bind_some, release, Option.map_some, Option.isSome_some]

/-- A batch put that is alone never asks for an address that it holds, just when none of its
searches runs into a chosen address. -/
theorem never_waits_iff (uncached : store.cacheSize = 0)
    (free : ∀ lba, run.store.safeLbaList lba = none)
    (distinct : (kvIov.map NvmKvIovec.key).Nodup) :
    (kvBatchPut store poolId kvIov allocation).Throughout (answerWith store thread outcome)
        (NotHeld thread) run ↔
      ∀ pair given begun before, BatchComesTo store thread outcome poolId kvIov allocation run pair
        given begun before → ¬BatchRunsInto store outcome poolId pair given begun before := by
  rw [neverWaits_iff inserts_kvBatchPut fun lba => Or.inl (free lba)]
  by_cases refused : BatchAccepted store run.store poolId kvIov → allocation.iovec = none
  · obtain ⟨code, again⟩ := @run_kvBatchPut_refused _ store thread outcome poolId kvIov allocation
      run refused
    rw [again]
    exact iff_of_true rfl fun pair given begun before comes => absurd refused comes.begins
  · obtain ⟨accepted, arrays⟩ := Classical.not_imp.mp refused
    obtain ⟨⟨iovecTrm, iovecWrt⟩, allocated⟩ := Option.ne_none_iff_exists'.mp arrays
    have waits : (batchPairs store poolId allocation.buf 0 kvIov (.initial iovecTrm iovecWrt)).run
          (answerWith store thread outcome) run = none ↔ _ :=
      batchPairs_waits_iff uncached (assigned_initial free iovecTrm iovecWrt) distinct
    simp only [batchComesTo_iff accepted allocated]
    cases loop : (batchPairs store poolId allocation.buf 0 kvIov (.initial iovecTrm iovecWrt)).run
        (answerWith store thread outcome) run with
    | none =>
      rw [run_kvBatchPut_waits accepted allocated loop]
      obtain ⟨pair, given, begun, before, comes, runs⟩ := waits.mp loop
      exact iff_of_false Bool.false_ne_true fun never => never pair given begun before comes runs
    | some looped =>
      refine iff_of_true (kvBatchPut_returns accepted allocated loop) ?_
      intro pair given begun before comes runs
      have stuck := waits.mpr ⟨pair, given, begun, before, comes, runs⟩
      rw [loop] at stuck
      cases stuck

end Calls

/-- The addresses assigned to the pairs of a batch are different, in front of every round and
behind the loop. -/
def AssignsDistinct (store : NvmKvStore) (thread : ι) (outcome : Nat → Bool) (poolId : UInt32)
    (kvIov : List NvmKvIovec) (allocation : BatchAllocation) (run : DeviceRun ι) : Prop :=
  (∀ pair given begun before,
    BatchComesTo store thread outcome poolId kvIov allocation run pair given begun before →
      (begun.puts.map NvmKvCachePut.lba).Nodup) ∧
  ∀ iovecTrm iovecWrt prepared reached, BatchAccepted store run.store poolId kvIov →
    allocation.iovec = some (iovecTrm, iovecWrt) →
    (batchPairs store poolId allocation.buf 0 kvIov (.initial iovecTrm iovecWrt)).run
      (answerWith store thread outcome) run = some ((.ok (), prepared), reached) →
    (prepared.puts.map NvmKvCachePut.lba).Nodup

/-- A batch put of different keys, alone and without a cache, assigns different addresses and
never waits for one that it holds, just when none of its searches runs into an address chosen
before. -/
theorem batch_assigns_iff (store : NvmKvStore) (thread : ι) (outcome : Nat → Bool)
    (poolId : UInt32) (kvIov : List NvmKvIovec) (allocation : BatchAllocation) (run : DeviceRun ι)
    (uncached : store.cacheSize = 0) (free : ∀ lba, run.store.safeLbaList lba = none)
    (distinct : (kvIov.map NvmKvIovec.key).Nodup) :
    AssignsDistinct store thread outcome poolId kvIov allocation run ∧
        (kvBatchPut store poolId kvIov allocation).Throughout (answerWith store thread outcome)
          (NotHeld thread) run ↔
      ∀ pair given begun before, BatchComesTo store thread outcome poolId kvIov allocation run pair
        given begun before → ¬BatchRunsInto store outcome poolId pair given begun before := by
  rw [never_waits_iff uncached free distinct, and_iff_right]
  constructor
  · rintro pair given begun before ⟨_, iovecTrm, iovecWrt, _, comes⟩
    obtain ⟨earlier, assigned⟩ :=
      assigned_reaches uncached (assigned_initial free iovecTrm iovecWrt) distinct comes
    rw [assigned.puts]
    exact assigned.nodup
  · intro iovecTrm iovecWrt prepared reached _ _ ran
    obtain ⟨earlier, assigned⟩ :=
      assigned_batchPairs uncached (assigned_initial free iovecTrm iovecWrt) distinct ran
    rw [assigned.puts]
    exact assigned.nodup

section Example

/-- The keys `q` and `wtz` have the same first address in the default pool. The second address
of `wtz` is the first one of `lazr`. -/
def storedKey : List UInt8 := [113]

/-- A key whose first address is taken by another key. -/
def displacedKey : List UInt8 := [119, 116, 122]

/-- A key whose first address is the second one of that key. -/
def neighbourKey : List UInt8 := [108, 97, 122, 114]

/-- The address that is taken. -/
def crowdedLba : Nat := NvmKvStore.terabyteStore.probeLba 0 storedKey 0

/-- The address that both may get. -/
def neighbourLba : Nat := NvmKvStore.terabyteStore.probeLba 0 neighbourKey 0

/-- A store that has a pair of `q`, at its first address. -/
def crowdedMedia : Media := fun l =>
  if l = crowdedLba then some (writeHeader (fun _ => 0) 0 storedKey 1 41 0 0) else none

/-- A device over these media that has made no operation yet. -/
def crowdedRun : DeviceRun Unit := ⟨.opened crowdedMedia (fun _ => false) 0, 0, []⟩

/-- A pair with a value of one sector. -/
def unflushedPair (key : List UInt8) : NvmKvIovec := ⟨key, poolBuffer fun _ => 0, 512, 0, 0, false⟩

/-- The displaced key tries the two addresses first. -/
theorem displaced_addresses : ∃ later, NvmKvStore.terabyteStore.probes 0 displacedKey =
    crowdedLba :: neighbourLba :: later := by
  have first : NvmKvStore.terabyteStore.probeLba 0 displacedKey 0 = crowdedLba := by
    decide +kernel
  have second : NvmKvStore.terabyteStore.probeLba 0 displacedKey 1 = neighbourLba := by
    decide +kernel
  obtain ⟨later, addresses⟩ := probes_head NvmKvStore.terabyteStore 0 displacedKey
  exact ⟨later, by rw [addresses, first, second]⟩

/-- The second one of them is free. -/
theorem neighbour_free : windowFree NvmKvStore.terabyteStore crowdedMedia neighbourLba = true := by
  rw [windowFree_iff]
  intro i inside
  have window : 2 ^ NvmKvStore.terabyteStore.valueBits = 4096 := by decide +kernel
  have apart : neighbourLba + 4096 ≤ crowdedLba := by decide +kernel
  exact if_neg (by omega)

/-- The first one is passed by, since another key is there. -/
theorem crowded_passed : PassesBy NvmKvStore.terabyteStore (fun _ => true) crowdedMedia 0
    displacedKey 1 crowdedLba := by
  have sector : crowdedMedia crowdedLba = some (writeHeader (fun _ => 0) 0 storedKey 1 41 0 0) :=
    if_pos rfl
  refine ⟨rfl, ?_, rfl, ?_⟩
  · rw [Bool.eq_false_iff]
    intro free
    have first := windowFree_iff.mp free 0 (Nat.two_pow_pos _)
    rw [Nat.add_zero, sector] at first
    cases first
  · rw [holds_sector (by decide) sector, headerMatches_writeHeader _ _ _ _ _ _ _ _ _ (by decide)]
    decide

/-- A buffer of the pool for the header of a pair. -/
def headerBuf : PoolBuf := ⟨fun _ => 0, false⟩

/-- A pair with a value of one sector is written in two vectors, and every buffer of the pool is
long enough for its header. -/
theorem headerBuf_allocated {key : List UInt8}
    (layout : writeLayout NvmKvStore.terabyteStore.capabilities key.length (poolBuffer fun _ => 0)
      512 = ⟨true, 512, 512, 2⟩) :
    kvAllocForWrite NvmKvStore.terabyteStore.capabilities (unflushedPair key).key.length
      (unflushedPair key).value (unflushedPair key).valueLen headerBuf =
        .ok (⟨true, 512, 512, 2⟩, fun _ => 0) := by
  unfold kvAllocForWrite unflushedPair
  dsimp only
  rw [layout]
  rfl

/-- The first round takes the first address of `lazr`. -/
theorem neighbour_round :
    ∃ between, (batchPair NvmKvStore.terabyteStore 0 (unflushedPair neighbourKey) headerBuf
        (.initial (fun _ => sectorTrim 0) fun _ => sectorTrim 0)).run
          (answerWith NvmKvStore.terabyteStore () fun _ => true) crowdedRun =
        some ((.ok (), between), (crowdedRun.counted 1).hold () neighbourLba) ∧
      between.lbaList = [(neighbourLba, neighbourKey)] ∧ between.finalIovCount = 2 := by
  obtain ⟨later, addresses⟩ := probes_head NvmKvStore.terabyteStore 0 neighbourKey
  have starts : skipChosen [] neighbourKey (NvmKvStore.terabyteStore.probes 0 neighbourKey) =
      .probes (neighbourLba :: NvmKvStore.terabyteStore.probeLba 0 neighbourKey 1 :: later) := by
    rw [addresses]
    rfl
  obtain ⟨between, ran, list, count, _⟩ := @run_batchPair_fresh _ NvmKvStore.terabyteStore ()
    (fun _ => true) 0 (unflushedPair neighbourKey) headerBuf
    (.initial (fun _ => sectorTrim 0) fun _ => sectorTrim 0) crowdedRun _ _ _ _ rfl (by decide)
    (headerBuf_allocated rfl) (by decide) starts rfl neighbour_free rfl rfl
  exact ⟨between, ran, list, count⟩

/-- The second round passes the address of `q` by and comes to the one of `lazr`. -/
theorem displaced_runs_into {between : BatchState}
    (list : between.lbaList = [(neighbourLba, neighbourKey)]) (count : between.finalIovCount = 2) :
    BatchRunsInto NvmKvStore.terabyteStore (fun _ => true) 0 (unflushedPair displacedKey)
      headerBuf between ((crowdedRun.counted 1).hold () neighbourLba) := by
  have apart : crowdedLba ≠ neighbourLba := by decide +kernel
  obtain ⟨later, addresses⟩ := displaced_addresses
  have starts : skipChosen between.lbaList displacedKey
      (NvmKvStore.terabyteStore.probes 0 displacedKey) =
        .probes (crowdedLba :: neighbourLba :: later) := by
    have unlisted : between.lbaList.lookup crowdedLba = none := by
      rw [list, List.lookup_cons, beq_false_of_ne apart]
      rfl
    rw [addresses, skipChosen, unlisted]
  have member : neighbourLba ∈ between.lbaList.chosen := by
    rw [list]
    exact List.mem_singleton_self _
  refine ⟨by decide, ⟨⟨true, 512, 512, 2⟩, fun _ => 0, rfl, ?_⟩, _, starts, ?_⟩
  · rw [count]
    decide
  · exact Or.inr ⟨crowded_passed, Or.inl ⟨rfl, neighbour_free, member⟩⟩

/-- A batch of `lazr` and `wtz` waits for the address that it has taken for `lazr`. -/
theorem batch_put_waits_for_itself :
    ¬∀ (store : NvmKvStore) (outcome : Nat → Bool) (poolId : UInt32) (kvIov : List NvmKvIovec)
      (allocation : BatchAllocation) (run : DeviceRun Unit), store.cacheSize = 0 →
      (∀ lba, run.store.safeLbaList lba = none) → (kvIov.map NvmKvIovec.key).Nodup →
      AssignsDistinct store () outcome poolId kvIov allocation run ∧
        (kvBatchPut store poolId kvIov allocation).Throughout (answerWith store () outcome)
          (NotHeld ()) run := by
  intro assigns
  have never := (assigns NvmKvStore.terabyteStore (fun _ => true) 0
    [unflushedPair neighbourKey, unflushedPair displacedKey] (replacementBatch fun _ => headerBuf)
    crowdedRun rfl (fun _ => rfl) (by decide)).2
  rw [never_waits_iff rfl (fun _ => rfl) (by decide)] at never
  obtain ⟨between, ran, list, count⟩ := neighbour_round
  refine never (unflushedPair displacedKey) headerBuf between
    ((crowdedRun.counted 1).hold () neighbourLba) ?_ (displaced_runs_into list count)
  have accepted : BatchAccepted NvmKvStore.terabyteStore crowdedRun.store 0
      [unflushedPair neighbourKey, unflushedPair displacedKey] :=
    ⟨by decide, List.cons_ne_nil _ _, by decide⟩
  exact ⟨accepted, _, _, rfl, .later ran .here⟩

/-- An empty store on which nothing has been done. -/
def emptyRun : DeviceRun Unit := ⟨.opened (fun _ => none) (fun _ => false) 0, 0, []⟩

/-- A batch of two keys with the same first address. -/
def collidingBatch : List NvmKvIovec := [unflushedPair storedKey, unflushedPair displacedKey]

/-- The round of `q` takes the first address. -/
theorem stored_round (iovecTrm iovecWrt : Nat → NvmIovec) :
    ∃ between, (batchPair NvmKvStore.terabyteStore 0 (unflushedPair storedKey) headerBuf
        (.initial iovecTrm iovecWrt)).run
          (answerWith NvmKvStore.terabyteStore () fun _ => true) emptyRun =
        some ((.ok (), between), (emptyRun.counted 1).hold () crowdedLba) ∧
      between.lbaList = [(crowdedLba, storedKey)] ∧ between.finalIovCount = 2 ∧
      between.idxTrm = 0 ∧ between.puts.map NvmKvCachePut.lba = [crowdedLba] := by
  obtain ⟨later, addresses⟩ := probes_head NvmKvStore.terabyteStore 0 storedKey
  have starts : skipChosen [] storedKey (NvmKvStore.terabyteStore.probes 0 storedKey) =
      .probes (crowdedLba :: NvmKvStore.terabyteStore.probeLba 0 storedKey 1 :: later) := by
    rw [addresses]
    rfl
  exact @run_batchPair_fresh _ NvmKvStore.terabyteStore () (fun _ => true) 0
    (unflushedPair storedKey) headerBuf (.initial iovecTrm iovecWrt) emptyRun _ _ _ _ rfl
    (by decide) (headerBuf_allocated rfl) (by change 0 + 2 ≤ 64; decide) starts rfl
    (windowFree_iff.mpr fun _ _ => rfl) rfl rfl

/-- Behind the round of `q` the search for `wtz` starts at its second address. -/
theorem displaced_starts {between : BatchState}
    (list : between.lbaList = [(crowdedLba, storedKey)]) :
    ∃ later, skipChosen between.lbaList displacedKey
      (NvmKvStore.terabyteStore.probes 0 displacedKey) = .probes (neighbourLba :: later) := by
  have apart : neighbourLba ≠ crowdedLba := by decide +kernel
  obtain ⟨third, later, addresses⟩ : ∃ third later,
      NvmKvStore.terabyteStore.probes 0 displacedKey =
        crowdedLba :: neighbourLba :: third :: later := by
    obtain ⟨later, addresses⟩ := displaced_addresses
    cases later with
    | nil => exact absurd (congrArg List.length addresses) (by decide)
    | cons third later => exact ⟨third, later, addresses⟩
  have taken : between.lbaList.lookup crowdedLba = some storedKey := by
    rw [list, List.lookup_cons, beq_self_eq_true]
  have unlisted : between.lbaList.lookup neighbourLba = none := by
    rw [list, List.lookup_cons, beq_false_of_ne apart]
    rfl
  refine ⟨third :: later, ?_⟩
  rw [addresses, skipChosen, taken]
  dsimp only
  rw [if_neg (by decide), skipChosen, unlisted]

/-- The batch prepares both pairs, the second one at its second address. Its addresses are
different, and it does not wait. -/
theorem batch_assigns_colliding :
    (∃ prepared reached, (batchPairs NvmKvStore.terabyteStore 0 (fun _ => headerBuf) 0
        collidingBatch (.initial (fun _ => sectorTrim 0) fun _ => sectorTrim 0)).run
          (answerWith NvmKvStore.terabyteStore () fun _ => true) emptyRun =
        some ((.ok (), prepared), reached) ∧
      prepared.puts.map NvmKvCachePut.lba = [crowdedLba, neighbourLba]) ∧
    AssignsDistinct NvmKvStore.terabyteStore () (fun _ => true) 0 collidingBatch
        (replacementBatch fun _ => headerBuf) emptyRun ∧
      (kvBatchPut NvmKvStore.terabyteStore 0 collidingBatch
        (replacementBatch fun _ => headerBuf)).Throughout
          (answerWith NvmKvStore.terabyteStore () fun _ => true) (NotHeld ()) emptyRun := by
  have apart : neighbourLba ≠ crowdedLba := by decide +kernel
  refine ⟨?_, ?_⟩
  · obtain ⟨between, ran, list, count, noTrims, puts⟩ :=
      stored_round (fun _ => sectorTrim 0) fun _ => sectorTrim 0
    obtain ⟨later, starts⟩ := displaced_starts list
    have unheld : ((emptyRun.counted 1).hold () crowdedLba).store.safeLbaList neighbourLba = none :=
      Function.update_of_ne apart (some ()) fun _ => none
    obtain ⟨prepared, reached, second, both⟩ : ∃ prepared reached,
        (batchPair NvmKvStore.terabyteStore 0 (unflushedPair displacedKey) headerBuf between).run
          (answerWith NvmKvStore.terabyteStore () fun _ => true)
          ((emptyRun.counted 1).hold () crowdedLba) = some ((.ok (), prepared), reached) ∧
        prepared.puts.map NvmKvCachePut.lba =
          between.puts.map NvmKvCachePut.lba ++ [neighbourLba] := by
      obtain ⟨prepared, second, _, _, _, both⟩ := @run_batchPair_fresh _ NvmKvStore.terabyteStore
        () (fun _ => true) 0 (unflushedPair displacedKey) headerBuf between
        ((emptyRun.counted 1).hold () crowdedLba) _ _ _ _ rfl (by decide)
        (headerBuf_allocated rfl) (by rw [count]; decide) starts rfl
        (windowFree_iff.mpr fun _ _ => rfl) unheld noTrims
      exact ⟨prepared, _, second, both⟩
    have rounds : (batchPairs NvmKvStore.terabyteStore 0 (fun _ => headerBuf) 0 collidingBatch
        (.initial (fun _ => sectorTrim 0) fun _ => sectorTrim 0)).run
          (answerWith NvmKvStore.terabyteStore () fun _ => true) emptyRun =
        some ((.ok (), prepared), reached) := by
      rw [collidingBatch, batchPairs, Program.run_bind, ran, Option.bind_some]
      dsimp only
      rw [batchPairs, Program.run_bind, second, Option.bind_some]
      rfl
    refine ⟨prepared, reached, rounds, ?_⟩
    rw [both, puts]
    rfl
  · refine (batch_assigns_iff NvmKvStore.terabyteStore () (fun _ => true) 0 collidingBatch
      (replacementBatch fun _ => headerBuf) emptyRun rfl (fun _ => rfl) (by decide)).mpr ?_
    rintro pair given begun before ⟨_, iovecTrm, iovecWrt, _, comes⟩ ⟨_, _, lbas, starts, runs⟩
    cases comes with
    | here => exact not_runsInto_nil runs
    | later first further =>
      obtain ⟨between, ran, list, _⟩ := stored_round iovecTrm iovecWrt
      cases ran.symm.trans first
      cases further with
      | here =>
        obtain ⟨later, second⟩ := displaced_starts list
        cases second.symm.trans starts
        rcases runs with ⟨_, _, member⟩ | ⟨passes, _⟩
        · rw [list] at member
          exact apart (List.mem_singleton.mp member)
        · have free : windowFree NvmKvStore.terabyteStore (fun _ => none) neighbourLba = true :=
            windowFree_iff.mpr fun _ _ => rfl
          exact Bool.false_ne_true (passes.2.1.symm.trans free)
      | later _ further => cases further

end Example

end Nvmkv
