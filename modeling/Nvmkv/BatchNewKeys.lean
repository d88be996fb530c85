import Nvmkv.BatchAssignment
import Nvmkv.LastWriter
import Nvmkv.PreparedVectors

/-!
# A batch of keys that the store does not have

The search for a key that no probe address has ends at the first address with an unmapped
window behind those that it skips, and trims nothing. A second pair of the key in the batch
goes to the address of the first one: the search skips the addresses of other keys only, and
one that began anew would come to the address that the batch holds and wait for it.

So the vectors of such a batch are the write vectors of its pairs one after the other, each
at an address of its own key (`BatchLaid`). They are handed over at once, and behind them
every sector is as the last pair left it that has the sector.
-/

namespace Nvmkv

variable {ι : Type} {store : NvmKvStore} {thread : ι} {outcome : Nat → Bool}

/-- A prepared pair, with the buffer that its header is in and the address that it goes
to. -/
structure LaidPair where
  pair : NvmKvIovec
  buf : Region
  lba : Nat

namespace LaidPair

variable (store : NvmKvStore) (poolId : UInt32) (clock : Nat) (laid : LaidPair)

/-- The write vectors of a prepared pair. -/
def vectors : List NvmIovec :=
  putIovec store poolId laid.pair (laid.pair.layout store) laid.buf clock laid.lba

/-- The number of sectors that they write. -/
def sectors : Nat :=
  sectorsWritten store.capabilities (laid.pair.layout store) laid.pair.valueLen

/-- What they leave in the sectors that they write. -/
def content (l : Nat) : Option (Option Region) :=
  if laid.lba ≤ l ∧ l < laid.lba + laid.sectors store then
    some (pairWritten store.capabilities (laid.pair.layout store)
      (putHeader store poolId laid.pair (laid.pair.layout store) laid.buf clock) laid.pair.value
      laid.pair.valueLen laid.lba (fun _ => none) l)
  else none

variable {store poolId clock laid}

/-- The write vectors of a pair overlay the media with its sectors. -/
theorem applyBatch_vectors (bounded : laid.pair.valueLen ≤ nvmKvMaxValueSize) (media : Media) :
    media.applyBatch store.sectorSize (laid.vectors store poolId clock) =
      overlay media (laid.content store poolId clock) := by
  have limit : (nvmKvMaxValueSize : Nat) = 1047552 := rfl
  have short : laid.pair.valueLen < 2 ^ 63 := by omega
  have applied := @pairIovec_applied store.capabilities (laid.pair.layout store)
    (putHeader store poolId laid.pair (laid.pair.layout store) laid.buf clock) laid.pair.value
    laid.pair.valueLen short laid.lba media
  funext l
  rw [vectors, putIovec, NvmKvStore.sectorSize, applied, overlay, content]
  split_ifs with inside
  · exact pairWritten_congr _ _ _ _ _ inside
  · exact pairWritten_outside _ _ _ _ (by rw [sectors] at inside; omega)

/-- Behind some pairs a sector is as the last of those left it that have it. -/
theorem applyBatch_laid {laids : List LaidPair}
    (bounded : ∀ laid ∈ laids, laid.pair.valueLen ≤ nvmKvMaxValueSize) (media : Media) (l : Nat) :
    media.applyBatch store.sectorSize (laids.flatMap (vectors store poolId clock)) l =
      (lastWrite (content store poolId clock) laids l).getD (media l) := by
  have overlaid : media.applyBatch store.sectorSize (laids.flatMap (vectors store poolId clock)) =
      laids.foldl (fun base laid => overlay base (laid.content store poolId clock)) media := by
    induction laids generalizing media with
    | nil => rfl
    | cons laid rest inductionHypothesis =>
      rw [List.flatMap_cons, Media.applyBatch_append,
        applyBatch_vectors (bounded laid List.mem_cons_self), List.foldl_cons]
      exact inductionHypothesis
        (fun other member => bounded other (List.mem_cons_of_mem _ member)) _
  rw [overlaid, foldl_overlay]

end LaidPair

section Search

variable {clock operations : Nat} {media : Media} {poolId : UInt32} {pair : NvmKvIovec}
  {insertLba : Bool} {lbas : List Nat} {lbaList : LbaList}

/-- A search for a key that none of the addresses has ends with success at the first one
with an unmapped window, and trims nothing. Induction follows the addresses. -/
theorem searchWith_unheld
    (unheld : ∀ lba ∈ lbas, holds store media poolId pair.key lba = false)
    (success :
      (searchWith store outcome clock media poolId pair insertLba operations lbas).retCode =
      .ok ()) :
    let ends := searchWith store outcome clock media poolId pair insertLba operations lbas
    windowFree store media ends.keyHashVal = true ∧ ends.trimLen = 0 ∧
      ends.taken = some ends.keyHashVal ∧
      ∃ passed rest, lbas = passed ++ ends.keyHashVal :: rest ∧
        ∀ lba ∈ passed, windowFree store media lba = false := by
  induction lbas generalizing insertLba operations with
  | nil => cases success
  | cons lba rest inductionHypothesis =>
    by_cases passes : PassesBy store outcome media poolId pair.key operations lba
    · rw [searchWith_passes passes] at success ⊢
      obtain ⟨free, untrimmed, takes, passed, later, split, mapped⟩ := inductionHypothesis
        (fun other member => unheld other (List.mem_cons_of_mem _ member)) success
      dsimp only
      refine ⟨free, untrimmed, takes, lba :: passed, later, ?_, ?_⟩
      · rw [List.cons_append, ← split]
      · rintro other (_ | ⟨_, member⟩)
        · exact passes.2.1
        · exact mapped other member
    · obtain ⟨_, address, ⟨⟨code, error⟩, _⟩ | ⟨_, _, ⟨free, takes⟩ | ⟨_, held, _⟩⟩⟩ :=
        @searchWith_stays _ outcome clock _ _ _ _ pair insertLba rest passes
      · rw [success] at error
        cases error
      · have untrimmed : (searchWith store outcome clock media poolId pair insertLba operations
            (lba :: rest)).trimLen = 0 := by
          rw [searchWith] at success ⊢
          dsimp only at success ⊢
          split_ifs at success ⊢
          all_goals rfl
        dsimp only
        rw [address]
        refine ⟨free, untrimmed, takes, [], rest, rfl, ?_⟩
        exact fun other absent => absurd absent List.not_mem_nil
      · rw [unheld lba List.mem_cons_self] at held
        cases held

/-- A search of a batch skips addresses that were chosen for other keys. -/
theorem skipChosen_probes_other {found : List Nat}
    (starts : skipChosen lbaList pair.key lbas = .probes found) :
    ∃ skipped first rest, lbas = skipped ++ first :: rest ∧ found = first :: rest ∧
      first ∉ lbaList.chosen ∧
      ∀ lba ∈ skipped, lba ∈ lbaList.chosen ∧ lbaList.lookup lba ≠ some pair.key := by
  induction lbas with
  | nil => cases starts
  | cons lba tail inductionHypothesis =>
    cases tail with
    | nil => cases starts
    | cons next rest =>
      rw [skipChosen] at starts
      split at starts
      · rename_i unlisted
        refine ⟨[], lba, next :: rest, rfl, (BatchStart.probes.inj starts).symm, ?_, ?_⟩
        · rw [LbaList.mem_chosen, unlisted]
          exact Bool.false_ne_true
        · exact fun other absent => absurd absent List.not_mem_nil
      · rename_i chosenKey listed
        split_ifs at starts with same
        obtain ⟨skipped, first, later, split, list, new, others⟩ := inductionHypothesis starts
        refine ⟨lba :: skipped, first, later, by rw [split, List.cons_append], list, new, ?_⟩
        rintro other (_ | ⟨_, member⟩)
        · rw [LbaList.mem_chosen, listed]
          exact ⟨rfl, fun own => same (Option.some.inj own)⟩
        · exact others other member

end Search

/-- The addresses that a batch has chosen for keys that the store does not have. Each is the
start of an unmapped window and is held, and those in front of it on the way of its key are
chosen or mapped. A key has one address, and an address one key. -/
structure BatchFresh (store : NvmKvStore) (poolId : UInt32) (lbaList : LbaList)
    (run : DeviceRun ι) : Prop where
  free : ∀ entry ∈ lbaList, windowFree store run.store.media entry.1 = true
  locked : ∀ entry ∈ lbaList, run.store.safeLbaList entry.1 ≠ none
  reached : ∀ entry ∈ lbaList, ∃ earlier later,
    store.probes poolId entry.2 = earlier ++ entry.1 :: later ∧
      ∀ passed ∈ earlier, passed ≠ entry.1 ∧
        (passed ∈ lbaList.chosen ∨ windowFree store run.store.media passed = false)
  keyed : ∀ first ∈ lbaList, ∀ second ∈ lbaList, first.2 = second.2 → first = second
  addressed : ∀ first ∈ lbaList, ∀ second ∈ lbaList, first.1 = second.1 → first = second

namespace BatchFresh

variable {poolId : UInt32} {pair : NvmKvIovec} {lbaList : LbaList} {run found : DeviceRun ι}

/-- Nothing is chosen at first. -/
theorem initial : BatchFresh store poolId [] run := by
  constructor <;> exact fun _ absent => absurd absent List.not_mem_nil

/-- An address of the list is looked up with its key. -/
theorem lookup_eq (fresh : BatchFresh store poolId lbaList run) {lba : Nat} {key : List UInt8}
    (member : (lba, key) ∈ lbaList) : lbaList.lookup lba = some key := by
  have chosen : lba ∈ lbaList.chosen := List.mem_map_of_mem member
  obtain ⟨other, listed⟩ := Option.isSome_iff_exists.mp (LbaList.mem_chosen.mp chosen)
  obtain ⟨before, after, split, _⟩ := List.lookup_eq_some_iff.mp listed
  have entry : (lba, other) ∈ lbaList := by
    rw [split]
    exact List.mem_append_right _ List.mem_cons_self
  have same := fresh.addressed _ member _ entry rfl
  rw [listed, (Prod.mk.inj same).2]

/-- One more address for a key that has none. -/
theorem grow (fresh : BatchFresh store poolId lbaList run) {lba : Nat} {key : List UInt8}
    {earlier later : List Nat} (media : found.store.media = run.store.media)
    (locks : ∀ other ∈ lbaList.chosen, run.store.safeLbaList other ≠ none →
      found.store.safeLbaList other ≠ none)
    (held : found.store.safeLbaList lba ≠ none)
    (free : windowFree store run.store.media lba = true) (new : lba ∉ lbaList.chosen)
    (unkeyed : ∀ entry ∈ lbaList, entry.2 ≠ key)
    (split : store.probes poolId key = earlier ++ lba :: later)
    (behind : ∀ passed ∈ earlier, passed ∈ lbaList.chosen ∨
      windowFree store run.store.media passed = false) :
    BatchFresh store poolId (lbaList ++ [(lba, key)]) found := by
  have entries : ∀ {property : Nat × List UInt8 → Prop}, (∀ entry ∈ lbaList, property entry) →
      property (lba, key) → ∀ entry ∈ lbaList ++ [(lba, key)], property entry := by
    intro property old last entry member
    rw [List.mem_append, List.mem_singleton] at member
    rcases member with earlier | rfl
    · exact old entry earlier
    · exact last
  have chosen : ∀ passed, passed ∈ lbaList.chosen →
      passed ∈ LbaList.chosen (lbaList ++ [(lba, key)]) := by
    intro passed member
    rw [LbaList.chosen, List.map_append]
    exact List.mem_append_left _ member
  have unaddressed : ∀ entry ∈ lbaList, entry.1 ≠ lba := by
    rintro entry member rfl
    exact new (List.mem_map_of_mem member)
  refine ⟨entries ?_ ?_, entries ?_ held, entries ?_ ?_, entries ?_ ?_, entries ?_ ?_⟩
  · rw [media]
    exact fresh.free
  · rw [media]
    exact free
  · exact fun entry member => locks _ (List.mem_map_of_mem member) (fresh.locked entry member)
  · intro entry member
    obtain ⟨before, after, parts, passes⟩ := fresh.reached entry member
    refine ⟨before, after, parts, fun passed listed => ?_⟩
    rw [media]
    exact ⟨(passes passed listed).1, (passes passed listed).2.imp (chosen passed) id⟩
  · refine ⟨earlier, later, split, fun passed listed => ?_⟩
    rw [media]
    refine ⟨?_, (behind passed listed).imp (chosen passed) id⟩
    rintro rfl
    rcases behind passed listed with member | mapped
    · exact new member
    · rw [free] at mapped
      cases mapped
  · exact fun first member => entries (fresh.keyed first member)
      fun same => absurd same (unkeyed first member)
  · exact entries (fun second member same => absurd same.symm (unkeyed second member))
      fun _ => rfl
  · exact fun first member => entries (fresh.addressed first member)
      fun same => absurd same (unaddressed first member)
  · exact entries (fun second member same => absurd same.symm (unaddressed second member))
      fun _ => rfl

/-- A search that begins anew has skipped all addresses of its key: it would have come to
the one that is held. -/
theorem unkeyed_of_search (fresh : BatchFresh store poolId lbaList run) {lba : Nat}
    {skipped passed rest : List Nat}
    (split : store.probes poolId pair.key = skipped ++ (passed ++ lba :: rest))
    (others : ∀ other ∈ skipped, lbaList.lookup other ≠ some pair.key)
    (mapped : ∀ other ∈ passed, windowFree store run.store.media other = false)
    (free : windowFree store run.store.media lba = true) (new : lba ∉ lbaList.chosen) :
    ∀ entry ∈ lbaList, entry.2 ≠ pair.key := by
  rintro ⟨address, key⟩ member same
  dsimp only at same
  subst same
  obtain ⟨earlier, later, parts, passes⟩ := fresh.reached _ member
  have window := fresh.free _ member
  dsimp only at parts passes window
  have before : address ∉ skipped ++ passed := by
    rw [List.mem_append]
    rintro (skips | goes)
    · exact others address skips (fresh.lookup_eq member)
    · rw [mapped address goes] at window
      cases window
  have behind : lba ∉ earlier := by
    intro among
    rcases (passes lba among).2 with chosen | unfree
    · exact new chosen
    · rw [free] at unfree
      cases unfree
  rw [parts, ← List.append_assoc, List.append_eq_append_iff] at split
  rcases split with ⟨between, first, second⟩ | ⟨between, first, second⟩
  · cases between with
    | nil =>
      obtain ⟨rfl, _⟩ := List.cons.inj second
      exact new (List.mem_map_of_mem member)
    | cons other tail =>
      obtain ⟨rfl, _⟩ := List.cons.inj second
      exact before (by rw [first]; exact List.mem_append_right _ List.mem_cons_self)
  · cases between with
    | nil =>
      obtain ⟨rfl, _⟩ := List.cons.inj second
      exact new (List.mem_map_of_mem member)
    | cons other tail =>
      obtain ⟨rfl, _⟩ := List.cons.inj second
      exact behind (by rw [first]; exact List.mem_append_right _ List.mem_cons_self)

/-- A search of a batch that succeeds for a key that the store does not have trims nothing. It ends
at the address of the key in the batch, or at a new one. What is removed from the safe list is not
chosen. -/
theorem kvGenLba (fresh : BatchFresh store poolId lbaList run)
    (short : pair.key.length ≤ nvmKvMaxKeySize)
    (unheld : ∀ lba ∈ store.probes poolId pair.key,
      holds store run.store.media poolId pair.key lba = false)
    {given : Region} {insertLba : Bool} {placed : GenLba}
    (ran : (Nvmkv.kvGenLba store poolId pair given insertLba (some lbaList)).run
      (answerWith store thread outcome) run = some (placed, found))
    (success : placed.retCode = .ok ()) :
    placed.trimLen = 0 ∧
      (placed.keyHashVal, pair.key) ∈ lbaList.insert placed.keyHashVal pair.key ∧
      BatchFresh store poolId (lbaList.insert placed.keyHashVal pair.key) found := by
  have media := (run_searches (searches_kvGenLba (some lbaList)) ran).2
  unfold Nvmkv.kvGenLba at ran
  dsimp only at ran
  cases starts : skipChosen lbaList pair.key (store.probes poolId pair.key) with
  | duplicate lba =>
    rw [starts] at ran
    cases ran
    have member := skipChosen_duplicate_key starts
    have listed : (lbaList.lookup lba).isSome = true := by
      rw [fresh.lookup_eq member]
      rfl
    rw [LbaList.insert, if_pos listed]
    exact ⟨rfl, member, fresh⟩
  | exhausted lba =>
    rw [starts] at ran
    cases ran
    cases success
  | probes lbas =>
    obtain ⟨skipped, first, rest, split, rfl, unchosen, others⟩ := skipChosen_probes_other starts
    rw [starts] at ran
    dsimp only at ran
    obtain ⟨read, ends⟩ := run_kvGenLbaProbes_with store thread outcome short (first :: rest)
      insertLba given run
    rw [ends] at ran
    dsimp only at ran
    obtain ⟨reached, taken, same⟩ := Option.map_eq_some_iff.mp ran
    obtain ⟨rfl, rfl⟩ := Prod.mk.inj same
    obtain ⟨free, untrimmed, takes, passed, later, way, mapped⟩ := searchWith_unheld
      (fun lba member => unheld lba (split ▸ List.mem_append_right _ member)) success
    generalize searched : searchWith store outcome run.store.clock run.store.media poolId pair
      insertLba run.operations (first :: rest) = ended at *
    have kept : ∀ other ∈ lbaList.chosen,
        ((run.counted ended.operations).drop ended.dropped).store.safeLbaList other =
          run.store.safeLbaList other := by
      intro other member
      cases removes : ended.dropped with
      | none => rfl
      | some lba =>
        have here : lba = first := by
          rw [← searched] at removes
          exact searchWith_dropped_first removes
        change Function.update run.store.safeLbaList lba none other = _
        rw [here, Function.update_of_ne]
        rintro rfl
        exact unchosen member
    rw [takes] at taken
    obtain ⟨unlisted, grown⟩ := DeviceRun.took_of_take taken
    have new : ended.keyHashVal ∉ lbaList.chosen := by
      intro member
      obtain ⟨key, listed⟩ := LbaList.exists_of_chosen member
      rw [kept _ member] at unlisted
      exact fresh.locked _ listed unlisted
    have unlookedUp : ¬(lbaList.lookup ended.keyHashVal).isSome = true :=
      fun listed => new (LbaList.mem_chosen.mpr listed)
    have whole : store.probes poolId pair.key =
        skipped ++ (passed ++ ended.keyHashVal :: later) := by
      rw [← way]
      exact split
    have unkeyed := fresh.unkeyed_of_search whole (fun other member => (others other member).2)
      mapped free new
    refine ⟨untrimmed, ?_, ?_⟩
    · change _ ∈ LbaList.insert lbaList ended.keyHashVal pair.key
      rw [LbaList.insert, if_neg unlookedUp]
      exact List.mem_append_right _ (List.mem_singleton_self _)
    · change BatchFresh store poolId (LbaList.insert lbaList ended.keyHashVal pair.key) reached
      rw [LbaList.insert, if_neg unlookedUp]
      refine fresh.grow media ?_ ?_ free new unkeyed
        (whole.trans (List.append_assoc skipped passed _).symm) ?_
      · intro other member locked
        rw [grown, Function.update_apply, kept other member]
        split_ifs
        · exact Option.some_ne_none thread
        · exact locked
      · rw [grown, Function.update_self]
        exact Option.some_ne_none thread
      · intro other member
        rcases List.mem_append.mp member with skips | goes
        · exact Or.inl (others other skips).1
        · exact Or.inr (mapped other goes)

end BatchFresh

/-- A store does not have a key: none of its addresses holds it, and the cache does not know
it. -/
structure AbsentKey (store : NvmKvStore) (state : StoreState ι) (poolId : UInt32)
    (key : List UInt8) : Prop where
  unheld : ∀ lba ∈ store.probes poolId key, holds store state.media poolId key lba = false
  uncached : (cacheAnswer store state poolId key).1 = false

/-- As many vectors are announced for a pair as are filled. -/
abbrev NvmKvIovec.Counted (store : NvmKvStore) (pair : NvmKvIovec) : Prop :=
  (pair.layout store).iovCount =
    vectorsFilled store.capabilities (pair.layout store) pair.valueLen

/-- The pairs of a batch prepared so far: their write vectors are all the vectors of the
batch, one after the other, and each goes to the address of its key. -/
structure BatchLaid (store : NvmKvStore) (poolId : UInt32) (clock : Nat)
    (pairs : List NvmKvIovec) (laids : List LaidPair) (state : BatchState) (run : DeviceRun ι) :
    Prop where
  pairs : laids.map LaidPair.pair = pairs
  writes : firstIovecs state.iovecWrt state.idxWrt =
    laids.flatMap (LaidPair.vectors store poolId clock)
  untrimmed : state.idxTrm = 0
  listed : ∀ laid ∈ laids, (laid.lba, laid.pair.key) ∈ state.lbaList
  valid : ∀ laid ∈ laids, laid.pair.Valid store
  fresh : BatchFresh store poolId state.lbaList run

/-- Nothing is prepared at first. -/
theorem BatchLaid.initial {poolId : UInt32} {clock : Nat} {run : DeviceRun ι}
    (iovecTrm iovecWrt : Nat → NvmIovec) :
    BatchLaid store poolId clock [] [] (.initial iovecTrm iovecWrt) run where
  pairs := rfl
  writes := rfl
  untrimmed := rfl
  listed := fun _ absent => absurd absent List.not_mem_nil
  valid := fun _ absent => absurd absent List.not_mem_nil
  fresh := .initial

section Rounds

variable {poolId : UInt32} {pair : NvmKvIovec} {buf : PoolBuf} {state ended : BatchState}
  {run found : DeviceRun ι} {pairs : List NvmKvIovec} {laids : List LaidPair}

/-- Vectors stored behind the first ones of an array follow them. -/
theorem firstIovecs_storeIovec (array : Nat → NvmIovec) (place : Nat) (vectors : List NvmIovec) :
    firstIovecs (storeIovec array place vectors) (place + vectors.length) =
      firstIovecs array place ++ vectors := by
  apply List.ext_getElem
  · rw [firstIovecs_length, List.length_append, firstIovecs_length]
  · intro i left right
    rw [firstIovecs_length] at left
    simp only [firstIovecs, List.getElem_map, List.getElem_range, storeIovec]
    by_cases before : i < place
    · rw [if_neg (by omega), List.getElem_append_left (by simpa using before)]
      simp
    · have inside : i - place < vectors.length := by omega
      rw [if_pos (by omega), List.getElem_append_right (by simpa using Nat.not_lt.mp before)]
      simp [List.getD_eq_getElem?_getD, List.getElem?_eq_getElem inside]

/-- The part of a round behind the address, for a pair that trims nothing. -/
theorem run_batchPrepare_untrimmed {layout : WriteLayout} {placed : GenLba}
    {context : NvmKvCacheContext} (nothing : placed.trimLen = 0) (untrimmed : state.idxTrm = 0) :
    ∃ ended, (batchPrepare store poolId pair layout placed context state).run
        (answerWith store thread outcome) run = some ((.ok (), ended), run) ∧
      ended.lbaList = state.lbaList.insert placed.keyHashVal pair.key ∧ ended.idxTrm = 0 ∧
      ended.idxWrt = state.idxWrt + layout.iovCount ∧
      ended.iovecWrt = storeIovec state.iovecWrt state.idxWrt
        (putIovec store poolId pair layout placed.buf run.store.clock placed.keyHashVal) := by
  have none : kvProcessForTrim store.capabilities pair.valueLen 0 placed.keyHashVal = .ok [] := by
    rw [kvProcessForTrim, if_neg (Nat.not_lt_zero _), if_neg (not_not.mpr rfl)]
  unfold batchPrepare
  dsimp only
  rw [nothing, none]
  dsimp only
  rw [untrimmed, List.length_nil, Nat.add_zero, if_neg (Nat.not_lt_zero _), Program.run_bind,
    run_kvProcessForWrite_with]
  exact ⟨_, rfl, rfl, rfl, rfl, rfl⟩

/-- A round behind the cache that succeeds has searched with success. -/
theorem searched_of_batchPlace {context : NvmKvCacheContext} {flag : Bool}
    (ran : (batchPlace store poolId pair buf state ⟨false, context, flag⟩).run
      (answerWith store thread outcome) run = some ((.ok (), ended), found)) :
    ∃ given placed between, (kvGenLba store poolId pair given flag (some state.lbaList)).run
        (answerWith store thread outcome) run = some (placed, between) ∧
      placed.retCode = .ok () ∧ ∃ prepared : BatchState, prepared.lbaList = state.lbaList ∧
        prepared.idxTrm = state.idxTrm ∧ prepared.iovecWrt = state.iovecWrt ∧
        prepared.idxWrt = state.idxWrt ∧
        (batchPrepare store poolId pair (pair.layout store) placed context prepared).run
          (answerWith store thread outcome) between = some ((.ok (), ended), found) := by
  unfold batchPlace at ran
  cases allocated : kvAllocForWrite store.capabilities pair.key.length pair.value pair.valueLen
      buf with
  | error code =>
    rw [allocated] at ran
    cases ran
  | ok allocation =>
    obtain ⟨layout, given⟩ := allocation
    obtain ⟨rfl, _⟩ := layout_of_alloc allocated
    rw [allocated] at ran
    dsimp only at ran
    split_ifs at ran
    · cases ran
    · rw [Program.run_bind] at ran
      obtain ⟨⟨placed, between⟩, search, further⟩ := Option.bind_eq_some_iff.mp ran
      dsimp only at further
      refine ⟨given, placed, between, search, ?_⟩
      cases success : placed.retCode with
      | error code =>
        rw [success] at further
        cases further
      | ok done =>
        cases done
        rw [success] at further
        exact ⟨rfl, { state with
          insertLba := placed.insertLba
          finalIovCount := state.finalIovCount + (pair.layout store).iovCount },
          rfl, rfl, rfl, rfl, further⟩

/-- A round that succeeds for a key that the store does not have lays one more pair. -/
theorem BatchLaid.next (laid : BatchLaid store poolId run.store.clock pairs laids state run)
    (absent : AbsentKey store run.store poolId pair.key) (counted : pair.Counted store)
    (ran : (batchPair store poolId pair buf state).run (answerWith store thread outcome) run =
      some ((.ok (), ended), found)) :
    ∃ one, BatchLaid store poolId run.store.clock (pairs ++ [pair])
      (laids ++ [one]) ended found := by
  have accepted : pairAccepted store pair = true := by
    by_contra rejected
    rw [run_batchPair_rejected (Bool.not_eq_true _ ▸ rejected)] at ran
    cases ran
  have allows : cacheRefuses store run.store poolId pair = false := by
    have unknown := absent.uncached
    unfold cacheRefuses
    generalize cacheAnswer store run.store poolId pair.key = reply at unknown ⊢
    obtain ⟨found, context⟩ := reply
    dsimp only at unknown ⊢
    rw [unknown, Bool.false_and, Bool.false_and]
  rw [run_batchPair_accepted accepted] at ran
  simp only [allows, absent.uncached, Bool.false_eq_true, if_false] at ran
  obtain ⟨given, placed, between, search, success, prepared, list, trims, array, count, prepares⟩ :=
    searched_of_batchPlace ran
  obtain ⟨untrimmed, member, fresh⟩ :=
    laid.fresh.kvGenLba (short_of_accepted accepted) absent.unheld search success
  obtain ⟨last, prepares', lastList, lastTrims, lastCount, lastArray⟩ :=
    @run_batchPrepare_untrimmed _ store thread outcome poolId pair prepared between
      (pair.layout store) placed _ untrimmed (trims.trans laid.untrimmed)
  rw [prepares'] at prepares
  obtain ⟨same, rfl⟩ := Prod.mk.inj (Option.some.inj prepares)
  obtain rfl := (Prod.mk.inj same).2
  have clock : between.store.clock = run.store.clock := by
    rw [(run_searches_store (searches_kvGenLba (some state.lbaList)) search).2]
  refine ⟨⟨pair, placed.buf, placed.keyHashVal⟩, ?_, ?_, lastTrims, ?_, ?_, ?_⟩
  · rw [List.map_append, laid.pairs, List.map_singleton]
  · have filled : (pair.layout store).iovCount = (putIovec store poolId pair (pair.layout store)
        placed.buf run.store.clock placed.keyHashVal).length := by
      rw [putIovec, pairIovec_length]
      exact counted
    rw [lastArray, lastCount, array, count, clock, filled, firstIovecs_storeIovec, laid.writes,
      List.flatMap_append, List.flatMap_singleton]
    rfl
  · intro other listed
    rw [lastList, list]
    rw [List.mem_append, List.mem_singleton] at listed
    rcases listed with earlier | rfl
    · have old := laid.listed other earlier
      rw [LbaList.insert]
      split_ifs
      · exact old
      · exact List.mem_append_left _ old
    · exact member
  · intro other listed
    rw [List.mem_append, List.mem_singleton] at listed
    rcases listed with earlier | rfl
    · exact laid.valid other earlier
    · rw [pairAccepted, Bool.and_eq_true] at accepted
      exact accepted
  · rw [lastList, list]
    exact fresh

/-- All pairs of keys that the store does not have are laid. Induction follows the pairs. -/
theorem laid_batchPairs {buf : Nat → PoolBuf} {i : Nat} {rest : List NvmKvIovec}
    (laid : BatchLaid store poolId run.store.clock pairs laids state run)
    (absent : ∀ pair ∈ rest, AbsentKey store run.store poolId pair.key)
    (counted : ∀ pair ∈ rest, pair.Counted store)
    (ran : (batchPairs store poolId buf i rest state).run (answerWith store thread outcome) run =
      some ((.ok (), ended), found)) :
    ∃ all, BatchLaid store poolId run.store.clock (pairs ++ rest) all ended found := by
  induction rest generalizing i pairs laids state run with
  | nil =>
    obtain ⟨same, rfl⟩ := Prod.mk.inj (Option.some.inj ran)
    obtain ⟨-, rfl⟩ := Prod.mk.inj same
    exact ⟨laids, by rwa [List.append_nil]⟩
  | cons pair rest inductionHypothesis =>
    rw [batchPairs, Program.run_bind] at ran
    obtain ⟨⟨⟨result, between⟩, reached⟩, round, further⟩ := Option.bind_eq_some_iff.mp ran
    cases result with
    | error code => cases further
    | ok done =>
      cases done
      obtain ⟨one, next⟩ :=
        laid.next (absent pair List.mem_cons_self) (counted pair List.mem_cons_self) round
      have unchanged := (run_searches_store (searches_batchPair _ _ _) round).2
      have clock : reached.store.clock = run.store.clock := by rw [unchanged]
      rw [← clock] at next
      obtain ⟨all, whole⟩ := inductionHypothesis next
        (fun other member => by
          have before := absent other (List.mem_cons_of_mem _ member)
          rw [unchanged]
          exact ⟨before.unheld, before.uncached⟩)
        (fun other member => counted other (List.mem_cons_of_mem _ member)) further
      rw [clock, List.append_assoc] at whole
      exact ⟨all, whole⟩

end Rounds

/-- What a batch put of keys that the store does not have leaves: the write vectors of its
pairs were written, each at the address of its key, where an unmapped window starts. -/
structure BatchStored (store : NvmKvStore) (poolId : UInt32) (before after : StoreState ι)
    (laids : List LaidPair) : Prop where
  written : after.media =
    before.media.applyBatch store.sectorSize
      (laids.flatMap (LaidPair.vectors store poolId before.clock))
  clock : after.clock = before.clock
  pool : poolStatus after.inUse after.deleted poolId = .poolInUse ∨ poolId = 0xFFFFFFFF
  valid : ∀ laid ∈ laids, laid.pair.Valid store
  free : ∀ laid ∈ laids, windowFree store before.media laid.lba = true
  reached : ∀ laid ∈ laids, ∃ earlier later,
    store.probes poolId laid.pair.key = earlier ++ laid.lba :: later ∧
      ∀ passed ∈ earlier, passed ≠ laid.lba
  keyed : ∀ first ∈ laids, ∀ second ∈ laids,
    first.pair.key = second.pair.key ↔ first.lba = second.lba

/-- A batch without trim vectors hands over its write vectors. -/
theorem run_batchWrite_untrimmed {prepared : BatchState} (untrimmed : prepared.idxTrm = 0)
    (run : DeviceRun ι) :
    (batchWrite store prepared).run (answerWith store thread outcome) run =
      some (if outcome run.operations then .ok () else .error .io,
        run.afterBatch store thread outcome
          (firstIovecs prepared.iovecWrt prepared.idxWrt)) := by
  unfold batchWrite
  dsimp only
  rw [if_pos untrimmed, run_nvmWritev_with]

/-- A batch put that succeeds for keys that the store does not have stores its pairs. -/
theorem batchStored_of_kvBatchPut {poolId : UInt32} {kvIov : List NvmKvIovec}
    {allocation : BatchAllocation} {run after : DeviceRun ι}
    (absent : ∀ pair ∈ kvIov, AbsentKey store run.store poolId pair.key)
    (counted : ∀ pair ∈ kvIov, pair.Counted store)
    (ran : (kvBatchPut store poolId kvIov allocation).run (answerWith store thread outcome) run =
      some (.ok (), after)) :
    ∃ laids, laids.map LaidPair.pair = kvIov ∧
      BatchStored store poolId run.store after.store laids := by
  by_cases refused : BatchAccepted store run.store poolId kvIov → allocation.iovec = none
  · obtain ⟨code, ended⟩ := @run_kvBatchPut_refused _ _ thread outcome _ _ _ _ refused
    rw [ended] at ran
    cases ran
  rw [Classical.not_imp] at refused
  obtain ⟨accepted, given⟩ := refused
  obtain ⟨⟨iovecTrm, iovecWrt⟩, allocated⟩ := Option.ne_none_iff_exists'.mp given
  cases loop : (batchPairs store poolId allocation.buf 0 kvIov (.initial iovecTrm iovecWrt)).run
      (answerWith store thread outcome) run with
  | none =>
    rw [run_kvBatchPut_waits accepted allocated loop] at ran
    cases ran
  | some ended =>
    obtain ⟨⟨result, prepared⟩, reached⟩ := ended
    rw [run_kvBatchPut_prepared accepted allocated loop] at ran
    cases result with
    | error code =>
      obtain ⟨released, _, same⟩ := Option.map_eq_some_iff.mp ran
      cases same
    | ok done =>
      cases done
      obtain ⟨laids, laid⟩ :=
        laid_batchPairs (BatchLaid.initial iovecTrm iovecWrt) absent counted loop
      have searched := (run_searches_store (searches_batchPairs _ _ _ _) loop).2
      obtain ⟨ended, finish, _, cached⟩ :=
        run_batchFinish_store prepared (run_batchWrite_untrimmed laid.untrimmed reached)
      rw [finish] at ran
      obtain ⟨released, releases, same⟩ := Option.map_eq_some_iff.mp ran
      obtain ⟨success, rfl⟩ := Prod.mk.inj same
      have works : outcome reached.operations = true := by
        by_contra fails
        dsimp only at success
        rw [if_neg fails] at success
        cases success
      have freed := (run_searches_store (searches_batchRelease prepared) releases).2
      have written : (reached.afterBatch store thread outcome
          (firstIovecs prepared.iovecWrt prepared.idxWrt)).store = { reached.store with
            media := reached.store.media.applyBatch store.sectorSize
              (firstIovecs prepared.iovecWrt prepared.idxWrt)
            log := reached.store.log ++
              [(thread, firstIovecs prepared.iovecWrt prepared.idxWrt)] } := if_pos works
      rw [written] at cached
      refine ⟨laids, laid.pairs, ?_, ?_, ?_, laid.valid, ?_, ?_, ?_⟩
      · rw [freed, cached, searched]
        dsimp only
        rw [laid.writes]
      · rw [freed, cached, searched]
      · rw [freed, cached, searched]
        exact accepted.pool
      · intro one member
        have free := laid.fresh.free _ (laid.listed one member)
        rwa [searched] at free
      · intro one member
        obtain ⟨earlier, later, split, passes⟩ := laid.fresh.reached _ (laid.listed one member)
        exact ⟨earlier, later, split, fun passed listed => (passes passed listed).1⟩
      · intro first member second listed
        constructor
        · intro same
          exact congrArg Prod.fst
            (laid.fresh.keyed _ (laid.listed first member) _ (laid.listed second listed) same)
        · intro same
          exact congrArg Prod.snd
            (laid.fresh.addressed _ (laid.listed first member) _ (laid.listed second listed) same)

end Nvmkv
