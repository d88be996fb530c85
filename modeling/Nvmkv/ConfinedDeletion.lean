import Nvmkv.DeletionScans
import Nvmkv.SequentialRuns

/-!
# Confined pool deletion

The rounds of the deletion thread are outlined from their scans: while the thread works for a
copy, the pools that it has not cleared yet are still those that were marked, since their ids
stay in use. So under the conditions on the steps whatever the thread trims was marked when it
made its copy, and a pool created since keeps its pairs.

The shortcut for all pools is where the conditions fail first. It was chosen by comparing two
bitmaps at the time of the copy and afterwards goes by the header alone, so the pairs of a
pool that was created behind the copy go with the others.
-/

namespace Nvmkv

/-- A round goes by this copy. -/
structure DeletionRound.Holds (round : DeletionRound) (poolsToDelete : KvBitmap)
    (deleteAllPools : Bool) : Prop where
  copied : round.copied = bitmapTest poolsToDelete
  deletesAll : round.deletesAll = deleteAllPools

/-- What holds of a round holds of the state that is in it. -/
theorem DeletionRound.Holds.held {ι : Type} {round : DeletionRound} {poolsToDelete : KvBitmap}
    {deleteAllPools : Bool} (holds : round.Holds poolsToDelete deleteAllPools)
    {state : DeletionState ι} (same : state.round = round) :
    state.round.Holds poolsToDelete deleteAllPools := by
  rw [same]
  exact holds

/-- The pools that are still due do not matter to the copy of a round. -/
theorem DeletionRound.Holds.cleared {round : DeletionRound} {poolsToDelete : KvBitmap}
    {deleteAllPools : Bool} (holds : round.Holds poolsToDelete deleteAllPools)
    (pending : Nat → Bool) :
    ({ round with pending := pending } : DeletionRound).Holds poolsToDelete deleteAllPools :=
  ⟨holds.copied, holds.deletesAll⟩

/-- No round lasts: the thread has this copy and is not at work. -/
structure DeletionState.Resting {ι : Type} (poolsToDelete : KvBitmap) (deleteAllPools : Bool)
    (state : DeletionState ι) : Prop where
  holds : state.round.Holds poolsToDelete deleteAllPools
  idle : state.round.poolDelStatus = false

section Rounds

variable {ι : Type} [DecidableEq ι] {store : NvmKvStore} {calls : ι → DeletionCall}
  {round : DeletionRound} {poolsToDelete : KvBitmap} {deleteAllPools : Bool}

omit [DecidableEq ι] in
/-- An assertion on the round of the thread is not falsified by clients. -/
theorem stable_round (store : NvmKvStore) (calls : ι → DeletionCall)
    (said : DeletionRound → Prop) :
    (deletionDiscipline store calls).Stable none fun state => said state.round := by
  intro before after _ _ relied holds
  rw [(relied rfl).round]
  exact holds

/-- A scan leaves the round as it is. -/
theorem outline_deletePool_round (iter : LogicalIterRanges) {poolId : Option Nat}
    (target : round.Target poolId) (memory : Nat) :
    (deletionSystemDiscipline store calls).Outline (deletionSystemAnswer store calls) none
      (deletePool store iter poolId memory) (fun state => state.round = round)
      fun _ state => state.round = round := by
  have scans : Scans store (deletionSystemDiscipline store calls)
      (deletionSystemAnswer store calls) none poolId (fun state => state.round = round)
      (DeletionState.Scanning store round poolId) := deletion_scans target
  refine ((scans.outline_deletePool iter memory).strengthen ?_).weaken ?_
  · intro state _ same
    exact ⟨same, fun _ absent => (List.not_mem_nil absent).elim,
      fun _ absent => (List.not_mem_nil absent).elim, .nil,
      fun _ absent => (List.not_mem_nil absent).elim⟩
  · intro result state _ ends
    cases result with
    | error code => exact ends
    | ok retCode =>
      obtain ⟨front, scanning⟩ := ends
      exact scanning.round

/-- A pool whose pairs were looked for is cleared. -/
theorem outline_clearPoolBitmap {poolId : Nat} (due : round.pending poolId = true) :
    (deletionSystemDiscipline store calls).Outline (deletionSystemAnswer store calls) none
      (clearPoolBitmapOf poolId) (fun state => state.round = round) fun _ state =>
        state.round = { round with pending := Function.update round.pending poolId false } := by
  refine Discipline.Outline.perform (stable_round store calls (· = round))
    fun state invariant same => ?_
  refine ⟨fun _ iovec batch => ?_, fun answered reached _ reply => ?_⟩
  · injection batch with inner
    injection inner
  obtain ⟨after, made, rfl⟩ := deletionSystemAnswer_eq reply
  rw [answerSystem] at made
  split_ifs at made
  obtain ⟨_, rfl⟩ := Prod.mk.inj (Option.some.inj made)
  subst same
  refine ⟨{ invariant with books := ?_, pending := ?_ }, fun other apart same =>
    absurd same apart, rfl⟩
  · exact invariant.books.clearPoolBitmap due true state.system.poolMedia
  · intro other remains
    refine invariant.pending other ?_
    by_cases here : other = poolId
    · subst here
      exact Bool.noConfusion ((Function.update_self _ _ _).symm.trans remains)
    · exact (Function.update_of_ne here _ _).symm.trans remains

/-- The pools of the copy are cleared. -/
theorem outline_clearPoolBitmaps
    (due : ∀ i, bitmapTest poolsToDelete i = true → round.pending i = true) :
    (deletionSystemDiscipline store calls).Outline (deletionSystemAnswer store calls) none
      (clearPoolBitmaps poolsToDelete) (fun state => state.round = round) fun _ state =>
        state.round =
          { round with pending := fun i => round.pending i && !bitmapTest poolsToDelete i } := by
  refine Discipline.Outline.perform (stable_round store calls (· = round))
    fun state invariant same => ?_
  refine ⟨fun _ iovec batch => ?_, fun answered reached _ reply => ?_⟩
  · injection batch with inner
    injection inner
  obtain ⟨after, made, rfl⟩ := deletionSystemAnswer_eq reply
  rw [answerSystem] at made
  split_ifs at made
  obtain ⟨_, rfl⟩ := Prod.mk.inj (Option.some.inj made)
  subst same
  refine ⟨{ invariant with books := ?_, pending := ?_ }, fun other apart same =>
    absurd same apart, rfl⟩
  · exact invariant.books.clearPoolBitmaps due true state.system.poolMedia
  · exact fun other remains => invariant.pending other (Bool.and_eq_true_iff.mp remains).1

/-- The pools of a copy one after the other. Those still to come are due. -/
theorem outline_deletePools (iter : LogicalIterRanges) (memory : Nat) {ids : List Nat}
    (distinct : ids.Nodup) (holds : round.Holds poolsToDelete deleteAllPools)
    (due : ∀ i ∈ ids, bitmapTest poolsToDelete i = true → round.pending i = true) :
    (deletionSystemDiscipline store calls).Outline (deletionSystemAnswer store calls) none
      (deletePools store iter poolsToDelete memory ids) (fun state => state.round = round)
      fun _ state => state.round.Holds poolsToDelete deleteAllPools := by
  induction ids generalizing round with
  | nil => exact fun _ _ same => holds.held same
  | cons i rest inductionHypothesis =>
    obtain ⟨fresh, distinct⟩ := List.nodup_cons.mp distinct
    unfold deletePools
    refine Discipline.Outline.ite (fun chosen => ?_) fun _ => inductionHypothesis distinct holds
      fun other member => due other (List.mem_cons_of_mem i member)
    have here := due i List.mem_cons_self chosen
    have scanned := @outline_deletePool_round _ _ store calls round iter (some i) here memory
    refine Discipline.Outline.bind scanned fun result => ?_
    cases result with
    | error code => exact fun _ _ same => holds.held same
    | ok retCode =>
      cases retCode with
      | succ retCode => exact fun _ _ same => holds.held same
      | zero =>
        refine Discipline.Outline.bind (outline_clearPoolBitmap here) fun cleared => ?_
        cases cleared with
        | error code => exact fun _ _ same => (holds.cleared _).held same
        | ok done =>
          refine inductionHypothesis distinct (holds.cleared _) ?_
          intro other member marked
          have apart : other ≠ i := fun same => fresh (same ▸ member)
          exact (Function.update_of_ne apart _ _).trans
            (due other (List.mem_cons_of_mem i member) marked)

/-- A round at work goes by its copy until it ends. -/
theorem outline_startPoolDelete (iter : LogicalIterRanges) (memory : Nat)
    (holds : round.Holds poolsToDelete deleteAllPools) (works : round.poolDelStatus = true)
    (due : ∀ i, round.copied i = true → round.pending i = true) :
    (deletionSystemDiscipline store calls).Outline (deletionSystemAnswer store calls) none
      (startPoolDelete store iter poolsToDelete deleteAllPools memory)
      (fun state => state.round = round)
      fun _ state => state.round.Holds poolsToDelete deleteAllPools := by
  have marked : ∀ i, bitmapTest poolsToDelete i = true → round.pending i = true := by
    intro i chosen
    refine due i ?_
    rw [holds.copied]
    exact chosen
  unfold startPoolDelete
  refine Discipline.Outline.ite (fun all => ?_) fun _ => outline_deletePools iter memory
    List.nodup_range' holds fun i _ => marked i
  have target : round.Target none := ⟨works, holds.deletesAll.trans all, due⟩
  have scanned := @outline_deletePool_round _ _ store calls round iter none target memory
  refine Discipline.Outline.bind scanned fun result => ?_
  cases result with
  | error code => exact fun _ _ same => holds.held same
  | ok retCode =>
    cases retCode with
    | succ retCode => exact fun _ _ same => holds.held same
    | zero =>
      refine Discipline.Outline.bind (outline_clearPoolBitmaps marked) fun cleared => ?_
      cases cleared with
      | error code => exact fun _ _ same => (holds.cleared _).held same
      | ok done => exact fun _ _ same => (holds.cleared _).held same

/-- The thread copies the deletion bits. What it copies is due from then on. -/
theorem outline_getPoolDeletionBitmap :
    (deletionSystemDiscipline store calls).Outline (deletionSystemAnswer store calls) none
      getPoolDeletionBitmap (fun state => state.round.poolDelStatus = false)
      fun copy => DeletionState.Resting copy.1 copy.2 := by
  refine Discipline.Outline.perform
    (stable_round store calls fun round => round.poolDelStatus = false)
    fun state invariant idle => ?_
  refine ⟨fun _ iovec batch => ?_, fun copy reached _ reply => ?_⟩
  · injection batch with inner
    injection inner
  obtain ⟨after, made, rfl⟩ := deletionSystemAnswer_eq reply
  rw [answerSystem] at made
  split_ifs at made
  obtain ⟨rfl, rfl⟩ := Prod.mk.inj (Option.some.inj made)
  refine ⟨{ invariant with books := ?_, pending := ?_, all := ?_ }, fun other apart same =>
    absurd same apart, ⟨rfl, rfl⟩, idle⟩
  · exact invariant.books.snapshot
  · exact fun poolId copied => ⟨copied, rfl⟩
  · intro works
    exact Bool.noConfusion (idle.symm.trans works)

/-- The rounds of the thread. Induction follows the rounds. A round goes by the copy that it has,
new or old. -/
theorem outline_startThread (iter : LogicalIterRanges)
    (rounds : List NvmKvPoolDelManager.RoundMemory) :
    (deletionDiscipline store calls).Outline (answerDeletion store calls) none
      (NvmKvPoolDelManager.startThread store iter rounds poolsToDelete deleteAllPools)
      (DeletionState.Resting poolsToDelete deleteAllPools) fun _ _ => True := by
  induction rounds generalizing poolsToDelete deleteAllPools with
  | nil => exact fun _ _ _ => trivial
  | cons memory rest inductionHypothesis =>
    have resting : ∀ (poolsToDelete : KvBitmap) (deleteAllPools : Bool),
        (deletionDiscipline store calls).Stable none
          (DeletionState.Resting poolsToDelete deleteAllPools) := by
      intro poolsToDelete deleteAllPools before after _ _ relied rests
      have same := (relied rfl).round
      exact ⟨same ▸ rests.holds, same ▸ rests.idle⟩
    have awaited : (deletionDiscipline store calls).Outline (answerDeletion store calls) none
        (NvmKvPoolDelManager.ask .awaitPoolsToDelete)
        (DeletionState.Resting poolsToDelete deleteAllPools)
        fun _ => DeletionState.Resting poolsToDelete deleteAllPools := by
      refine Discipline.Outline.perform (resting _ _) fun state invariant rests => ?_
      refine ⟨fun _ iovec batch => ?_, fun answered reached _ reply => ?_⟩
      · injection batch
      rw [answerDeletion] at reply
      split_ifs at reply
      obtain ⟨_, rfl⟩ := Prod.mk.inj (Option.some.inj reply)
      exact ⟨invariant, fun other apart same => absurd same apart, rests⟩
    have worked : ∀ (poolsToDelete : KvBitmap) (deleteAllPools : Bool),
        (deletionDiscipline store calls).Outline (answerDeletion store calls) none (do
          let () ← NvmKvPoolDelManager.ask (.setPoolDelStatus true)
          let _ ← NvmKvPoolDelManager.onSystem (startPoolDelete store iter poolsToDelete
            deleteAllPools memory.foundPoolId)
          let () ← NvmKvPoolDelManager.ask (.setPoolDelStatus false)
          NvmKvPoolDelManager.startThread store iter rest poolsToDelete deleteAllPools)
        (DeletionState.Resting poolsToDelete deleteAllPools) fun _ _ => True := by
      intro poolsToDelete deleteAllPools
      have begun : (deletionDiscipline store calls).Outline (answerDeletion store calls) none
          (NvmKvPoolDelManager.ask (.setPoolDelStatus true))
          (DeletionState.Resting poolsToDelete deleteAllPools) fun _ state => ∃ round,
            state.round = round ∧ round.Holds poolsToDelete deleteAllPools ∧
              round.poolDelStatus = true ∧
              ∀ i, round.copied i = true → round.pending i = true := by
        refine Discipline.Outline.perform (resting _ _) fun state invariant rests => ?_
        refine ⟨fun _ iovec batch => ?_, fun answered reached allowed reply => ?_⟩
        · injection batch
        obtain ⟨_, rfl⟩ := Prod.mk.inj (Option.some.inj reply)
        obtain ⟨due, leaves⟩ := allowed
        exact ⟨{ invariant with all := fun _ => leaves }, fun other apart same =>
          absurd same apart, _, rfl, ⟨rests.holds.copied, rests.holds.deletesAll⟩, rfl, due⟩
      have ended : (deletionDiscipline store calls).Outline (answerDeletion store calls) none
          (NvmKvPoolDelManager.ask (.setPoolDelStatus false))
          (fun state => state.round.Holds poolsToDelete deleteAllPools)
          fun _ => DeletionState.Resting poolsToDelete deleteAllPools := by
        refine Discipline.Outline.perform
          (stable_round store calls fun round => round.Holds poolsToDelete deleteAllPools)
          fun state invariant holds => ?_
        refine ⟨fun _ iovec batch => ?_, fun answered reached _ reply => ?_⟩
        · injection batch
        obtain ⟨_, rfl⟩ := Prod.mk.inj (Option.some.inj reply)
        exact ⟨{ invariant with all := fun works => Bool.noConfusion works },
          fun other apart same => absurd same apart, ⟨holds.copied, holds.deletesAll⟩, rfl⟩
      refine Discipline.Outline.bind begun fun _ => Discipline.Outline.chosen fun round => ?_
      refine Discipline.Outline.given fun ⟨holds, works, due⟩ => ?_
      refine Discipline.Outline.bind (Discipline.Outline.lift
        (outline_startPoolDelete iter memory.foundPoolId holds works due)) fun _ => ?_
      exact Discipline.Outline.bind ended fun _ => inductionHypothesis
    unfold NvmKvPoolDelManager.startThread
    refine Discipline.Outline.bind awaited fun _ => ?_
    refine Discipline.Outline.ite (fun _ => ?_) fun _ => worked _ _
    refine Discipline.Outline.bind ((Discipline.Outline.lift
      outline_getPoolDeletionBitmap).strengthen fun _ _ rests => rests.idle) fun copy => ?_
    exact worked copy.1 copy.2

end Rounds

/-- The records agree with the store, and the thread has not begun: no copy was made but what
its memory holds. -/
structure DeletionState.Starts {ι : Type} (store : NvmKvStore) (thread : PoolDelThread)
    (state : DeletionState ι) : Prop where
  invariant : DeletionInvariant store state
  resting : state.Resting thread.poolsToDelete false

/-- In every run whose steps meet the conditions, when the thread is about to trim then all
that it trims is of pools that were marked when it made its copy, and no pair of a pool whose
id was given out since is among it. -/
theorem pool_deletion_confined {ι : Type} [DecidableEq ι] (store : NvmKvStore)
    (thread : PoolDelThread) (calls : ι → DeletionCall) (state : DeletionState ι)
    (starts : state.Starts store thread) (config : DeletionConfig ι)
    (reached : Config.Reachable (answerDeletion store calls)
      (fun thread op state => state.Confines store calls thread op)
      (startDeletion store state thread calls) config) (iovec : List NvmIovec)
    (next : Bool → DeletionM Unit)
    (pending : config.threads none = .call (.system (.store (.batchAtomic iovec))) next) :
    config.shared.TrimsConfined store iovec := by
  have placed : ∀ owner, Discipline.Placed (deletionDiscipline store calls)
      (answerDeletion store calls) (fun _ _ _ => True) (startDeletion store state thread calls)
      owner := by
    intro owner
    cases owner with
    | none => exact ⟨_, starts.resting, outline_startThread thread.iter thread.rounds⟩
    | some client => exact ⟨fun _ => True, trivial, spares_deletionCall⟩
  have checked := @Discipline.sound_checked _ _ _ _ _ (deletionDiscipline store calls) _ _
    (fun _ _ _ => True) (startDeletion store state thread calls) _ starts.invariant placed
    (fun _ _ _ _ _ _ _ _ => trivial) reached none _ _ pending
  exact checked rfl iovec rfl

section Runs

variable {ι : Type} [DecidableEq ι] {store : NvmKvStore} {calls : ι → DeletionCall} {client : ι}
  {poolId : UInt32} {pair : NvmKvIovec} {allocation : Allocation}

/-- What the records of a put say of a sector is what is there: the sector is as it was, or a
pair of the put is recorded for it. -/
structure PairsNoted (poolId : UInt32) (before reached : DeletionState ι) : Prop where
  mgr : reached.system.mgr = before.system.mgr
  round : reached.round = before.round
  pairs : ∀ lba, (reached.system.store.media lba).isSome →
    (reached.system.store.media lba = before.system.store.media lba ∧
      reached.pairs lba = before.pairs lba) ∨
    ∃ put, reached.pairs lba = some put ∧ put.poolId = poolId.toNat

/-- One call of a put with its records. What is mapped at the address was written, so that the batch
has a vector that writes. -/
theorem noted_pairs (call : calls client = .kvPut poolId pair allocation) {op : StoreOp}
    {answered : StoreRes op} {state : DeletionState ι} {after : StoreState (Option ι)}
    (made : answer store (some client) op state.system.store = some (answered, after)) :
    PairsNoted poolId state (state.notedStore store calls (some client) op
      { state.system with store := after }) ∧
      (state.notedStore store calls (some client) op
        { state.system with store := after }).system.store = after := by
  by_cases batch : ∃ iovec, op = .batchAtomic iovec
  · obtain ⟨iovec, rfl⟩ := batch
    obtain ⟨_, rfl⟩ := Prod.mk.inj (Option.some.inj made)
    refine ⟨⟨rfl, rfl, fun lba mapped => ?_⟩, rfl⟩
    by_cases covered : BatchCovers store iovec lba
    · refine .inr ?_
      obtain ⟨vector, member, _, content⟩ :=
        @Media.applyBatch_covered _ _ _ state.system.store.media covered
      have wrote : vector.iovOpcode = .write := by
        change (state.system.store.media.applyBatch store.sectorSize iovec lba).isSome = true
          at mapped
        rw [content, Media.vectorContent] at mapped
        cases opcode : vector.iovOpcode with
        | write => rfl
        | trim =>
          rw [opcode] at mapped
          exact Bool.noConfusion mapped
      obtain ⟨first, found⟩ : ∃ first, iovec.find? (·.iovOpcode = .write) = some first :=
        Option.isSome_iff_exists.mp (List.find?_isSome.mpr ⟨vector, member, decide_eq_true wrote⟩)
      have written : poolPairOf calls (state.validated (some client)) iovec (some client) =
          some ⟨first.iovLba, poolId.toNat, state.validated (some client) poolId.toNat⟩ := by
        rw [poolPairOf, call]
        dsimp only
        rw [found]
        rfl
      exact ⟨_, (if_pos covered).trans ((if_pos mapped).trans written), rfl⟩
    · exact .inl ⟨applyBatch_uncovered covered, if_neg covered⟩
  · cases op with
    | batchAtomic iovec => exact absurd ⟨iovec, rfl⟩ batch
    | checkEntry lba =>
      rw [answer] at made
      split_ifs at made <;> obtain ⟨_, rfl⟩ := Prod.mk.inj (Option.some.inj made) <;>
        exact ⟨⟨rfl, rfl, fun _ _ => .inl ⟨rfl, rfl⟩⟩, rfl⟩
    | awaitEntry lba =>
      rw [answer] at made
      split_ifs at made
      obtain ⟨_, rfl⟩ := Prod.mk.inj (Option.some.inj made)
      exact ⟨⟨rfl, rfl, fun _ _ => .inl ⟨rfl, rfl⟩⟩, rfl⟩
    | never => cases made
    | _ =>
      obtain ⟨_, rfl⟩ := Prod.mk.inj (Option.some.inj made)
      exact ⟨⟨rfl, rfl, fun _ _ => .inl ⟨rfl, rfl⟩⟩, rfl⟩

/-- A program of the store that runs to its end in a put does so with the records. Induction
follows its calls. -/
theorem run_onSystem_liftStore (call : calls client = .kvPut poolId pair allocation) {α : Type}
    {program : StoreM α} {state : DeletionState ι} {after : StoreState (Option ι)} {result : α}
    (ran : program.run (answer store (some client)) state.system.store = some (result, after)) :
    ∃ reached, (NvmKvPoolDelManager.onSystem (liftStore program)).run
        (answerDeletion store calls (some client)) state = some (result, reached) ∧
      reached.system.store = after ∧ PairsNoted poolId state reached := by
  induction program generalizing state with
  | done returned =>
    obtain ⟨rfl, rfl⟩ := Prod.mk.inj (Option.some.inj ran)
    exact ⟨state, rfl, rfl, rfl, rfl, fun _ _ => .inl ⟨rfl, rfl⟩⟩
  | call op next inductionHypothesis =>
    rw [Program.run_call] at ran
    obtain ⟨⟨answered, middle⟩, made, further⟩ := Option.bind_eq_some_iff.mp ran
    obtain ⟨noted, here⟩ := @noted_pairs _ _ _ _ _ _ _ _ call op answered state middle made
    rw [← here] at further
    obtain ⟨reached, later, same, recorded⟩ := inductionHypothesis answered further
    refine ⟨reached, ?_, same, recorded.mgr.trans noted.mgr, recorded.round.trans noted.round, ?_⟩
    · rw [NvmKvPoolDelManager.onSystem, liftStore, Program.lift, Program.run_call, answerDeletion,
        answerSystem, made]
      exact later
    · intro lba mapped
      rcases recorded.pairs lba mapped with ⟨sector, kept⟩ | put
      · rw [sector] at mapped ⊢
        rw [kept]
        exact noted.pairs lba mapped
      · exact .inr put

end Runs

/-- The store with its pool manager, where one pool besides the default one is marked to be
deleted. -/
def markedSystem {ι : Type} (media : Media) : SystemState ι :=
  SystemState.managed
    { store := .opened media (fun _ => false) 0
      mgr := oneMarked
      poolMedia := openedPools.media }
    oneMarked openedPools.media

/-- The store before the thread has begun. -/
def markedStart {ι : Type} (media : Media) (pairs : Nat → Option PoolPair) :
    DeletionState ι where
  system := markedSystem media
  pairs := pairs
  cached := fun _ => 0
  generation := fun _ => 0
  validated := fun _ _ => 0
  emptying := fun _ => none
  round := ⟨fun _ => false, fun _ => 0, fun _ => false, false, false⟩
  listed := []

/-- A thread that makes one round. -/
def oneRound : PoolDelThread := ⟨portionOf32, [⟨true, 0⟩], .zero⟩

/-- The thread of the example rests before its round. -/
theorem markedStart_resting {ι : Type} (media : Media) (pairs : Nat → Option PoolPair) :
    (markedStart media pairs : DeletionState ι).Resting oneRound.poolsToDelete false := by
  refine ⟨⟨?_, rfl⟩, rfl⟩
  funext poolId
  exact (bitmapTest_zero poolId).symm

/-- The copy that the thread makes there stands for all pools. -/
theorem marked_copy : oneMarked.getPoolDeletionBitmap NvmKvStore.terabyteStore =
    (copiedPools, true) := Prod.ext rfl (by decide +kernel)

/-- The state behind the copy. -/
def markedCopied {ι : Type} (media : Media) (pairs : Nat → Option PoolPair) : DeletionState ι :=
  { markedStart media pairs with
    round := ⟨bitmapTest copiedPools, fun _ => 0, bitmapTest copiedPools, true, false⟩ }

/-- It copies the deletion bits first. -/
theorem marked_copied {ι : Type} [DecidableEq ι] (calls : ι → DeletionCall) (media : Media)
    (pairs : Nat → Option PoolPair) :
    answerDeletion NvmKvStore.terabyteStore calls none (.system .getPoolDeletionBitmap)
      (markedStart media pairs) = some ((copiedPools, true), markedCopied media pairs) := by
  change some (oneMarked.getPoolDeletionBitmap NvmKvStore.terabyteStore, (markedStart media
    pairs).noted NvmKvStore.terabyteStore calls none .getPoolDeletionBitmap
      (oneMarked.getPoolDeletionBitmap NvmKvStore.terabyteStore) (markedSystem media)) = _
  rw [marked_copy]
  rfl

/-- The range of one pair is what the device lists. -/
theorem one_range {media : Media} {lba : Nat}
    (ranges : media.logicalRanges NvmKvStore.terabyteStore.usrData = [⟨lba, 1⟩]) :
    ∃ left, media.logicalRangeIterator NvmKvStore.terabyteStore.usrData 32 0 0 =
      ([⟨lba, 1⟩], left) := by
  refine ⟨_, Prod.ext ?_ rfl⟩
  rw [Media.logicalRangeIterator, ranges, Media.filter_passesFilter_zero]
  rfl

/-- The address of a pair of the marked pool. -/
def markedLba : Nat := 1966219265

/-- A device with that pair. -/
def markedMedia : Media := fun lba =>
  if lba = markedLba then some (writeHeader (fun _ => 0) 1 [97] 5 41 0 0) else none

/-- The pair is recorded as what it is. -/
def markedPairs : Nat → Option PoolPair := fun lba =>
  if lba = markedLba then some ⟨markedLba, 1, 0⟩ else none

/-- The pair of the marked pool is recorded at its address. -/
theorem markedPairs_first : markedPairs markedLba = some ⟨markedLba, 1, 0⟩ := if_pos rfl

/-- No other pair is recorded. -/
theorem markedPairs_only {lba : Nat} {pair : PoolPair} (stored : markedPairs lba = some pair) :
    lba = markedLba ∧ pair = ⟨markedLba, 1, 0⟩ := by
  rw [markedPairs] at stored
  split_ifs at stored with here
  exact ⟨here, (Option.some.inj stored).symm⟩

/-- The example starts within the invariant. -/
theorem markedStart_invariant {ι : Type} : DeletionInvariant NvmKvStore.terabyteStore
    (markedStart markedMedia markedPairs : DeletionState ι) where
  books := oneMarked_bookkeeping
  header := by
    intro lba pair stored _
    obtain ⟨rfl, rfl⟩ := markedPairs_only stored
    have sector : markedMedia markedLba = some (writeHeader (fun _ => 0) 1 [97] 5 41 0 0) :=
      if_pos rfl
    have header : storedHeader NvmKvStore.terabyteStore markedMedia markedLba =
        readHeader (writeHeader (fun _ => 0) 1 [97] 5 41 0 0) := storedHeader_sector sector
    refine ⟨?_, ?_⟩
    · refine (congrArg NvmKvHeader.isKey header).trans ?_
      rw [readHeader_writeHeader]
      rfl
    · refine (congrArg NvmKvHeader.poolId header).trans ?_
      rw [readHeader_writeHeader]
      rfl
  addressed := by
    intro lba pair stored _
    obtain ⟨rfl, rfl⟩ := markedPairs_only stored
    decide +kernel
  bounded := by
    intro lba pair stored
    obtain ⟨_, rfl⟩ := markedPairs_only stored
    decide
  cached := cacheSound_initial _
  pending := fun _ due => Bool.noConfusion due
  all := fun works => Bool.noConfusion works

/-- Nobody but the thread does anything, and it is about to trim the pair of the marked pool. -/
theorem pool_deletion_confined_one_pair : ∃ config : DeletionConfig Unit,
    config.shared.pairs markedLba = some ⟨markedLba, 1, 0⟩ ∧
      config.shared.TrimsConfined NvmKvStore.terabyteStore
        [poolRangeIovec NvmKvStore.terabyteStore ⟨markedLba, 1⟩] := by
  have starts : (markedStart markedMedia markedPairs : DeletionState Unit).Starts
      NvmKvStore.terabyteStore oneRound := ⟨markedStart_invariant, markedStart_resting _ _⟩
  have inside : NvmKvStore.terabyteStore.usrData.Covers markedLba := by
    unfold NvmBlockRange.Covers
    decide +kernel
  have ranges : markedMedia.logicalRanges NvmKvStore.terabyteStore.usrData = [⟨markedLba, 1⟩] :=
    Media.logicalRanges_single inside
  obtain ⟨left, called⟩ := one_range ranges
  have begun : Config.Reachable
      (answerDeletion NvmKvStore.terabyteStore fun _ : Unit => .passTimes [])
      (fun thread op state => state.Confines NvmKvStore.terabyteStore (fun _ => .passTimes [])
        thread op)
      (startDeletion NvmKvStore.terabyteStore (markedStart markedMedia markedPairs) oneRound
        fun _ => .passTimes []) _ := .start
  have awaited := begun.advance none () _ rfl trivial rfl
  have copied := awaited.advance none (copiedPools, true) _ rfl trivial (marked_copied _ _ _)
  have works := copied.advance none () _ rfl ⟨fun _ => id, fun _ lba pair stored => by
    obtain ⟨_, rfl⟩ := markedPairs_only stored
    exact .inr (by decide +kernel)⟩ rfl
  have honest : ∀ range ∈ (markedMedia.logicalRangeIterator NvmKvStore.terabyteStore.usrData 32 0
      0).1, DeletionState.Honest (ι := Unit) { markedCopied markedMedia markedPairs with
        round := ⟨bitmapTest copiedPools, fun _ => 0, bitmapTest copiedPools, true, true⟩ }
        range := by
    rw [called]
    intro range member lba pair _ stored
    rw [List.mem_singleton.mp member]
    obtain ⟨_, rfl⟩ := markedPairs_only stored
    exact ⟨⟨markedLba, 1, 0⟩, markedPairs_first, rfl, id⟩
  have listed := works.advance none (some ([⟨markedLba, 1⟩], left)) _ rfl honest (by
    rw [← called]
    rfl)
  exact ⟨_, markedPairs_first, pool_deletion_confined NvmKvStore.terabyteStore oneRound
    (fun _ => .passTimes []) _ starts _ listed [poolRangeIovec NvmKvStore.terabyteStore
      ⟨markedLba, 1⟩] _ rfl⟩

/-- One client creates a pool, and the other one puts a pair into it. -/
def createAndPut : Bool → DeletionCall
  | false => .kvPoolCreate none
  | true => .kvPut 2 (bytePair [97]) plentyMemory

/-- The address of that pair. -/
def createdLba : Nat := NvmKvStore.terabyteStore.probeLba 2 [97] 0

/-- The manager behind the creation. -/
def createdPool : Except NvmErrorCode Nat × NvmKvPoolMgr × PoolMedia :=
  oneMarked.createPool NvmKvStore.terabyteStore none true openedPools.media

/-- The state behind the creation. -/
def createdState : DeletionState Bool :=
  (markedCopied (fun _ => none) fun _ => none).noted NvmKvStore.terabyteStore createAndPut
    (some false) (.createPool none) createdPool.1
    (SystemState.managed (markedSystem fun _ => none) createdPool.2.1 createdPool.2.2)

/-- A pool that is created behind the copy loses its pair: the copy stood for all pools, and the
range of the pair is not one of the default pool. -/
theorem created_pool_trimmed :
    ¬∀ (store : NvmKvStore) (thread : PoolDelThread) (calls : Bool → DeletionCall)
      (state : DeletionState Bool) (config : DeletionConfig Bool), state.Starts store thread →
      Config.Reachable (answerDeletion store calls) (fun _ _ _ => True)
        (startDeletion store state thread calls) config →
      ∀ iovec next, config.threads none = .call (.system (.store (.batchAtomic iovec))) next →
        config.shared.TrimsConfined store iovec := by
  intro confined
  have starts : (markedStart (fun _ => none) (fun _ => none) : DeletionState Bool).Starts
      NvmKvStore.terabyteStore oneRound := by
    refine ⟨⟨oneMarked_bookkeeping, ?_, ?_, ?_, cacheSound_initial _, ?_, ?_⟩,
      markedStart_resting _ _⟩
    · exact fun _ _ stored => (Option.some_ne_none _ stored.symm).elim
    · exact fun _ _ stored => (Option.some_ne_none _ stored.symm).elim
    · exact fun _ _ stored => (Option.some_ne_none _ stored.symm).elim
    · exact fun _ due => Bool.noConfusion due
    · exact fun works => Bool.noConfusion works
  have begun : Config.Reachable (answerDeletion NvmKvStore.terabyteStore createAndPut)
      (fun _ _ _ => True) (startDeletion NvmKvStore.terabyteStore
        (markedStart (fun _ => none) (fun _ => none)) oneRound createAndPut) _ := .start
  have awaited := begun.advance none () _ rfl trivial rfl
  have copied := awaited.advance none (copiedPools, true) _ rfl trivial (marked_copied _ _ _)
  have created := copied.advance (some false) createdPool.1 createdState rfl trivial rfl
  obtain ⟨later, addresses⟩ : ∃ later, NvmKvStore.terabyteStore.probes 2 [97] =
      createdLba :: later := ⟨_, rfl⟩
  have free : windowFree NvmKvStore.terabyteStore createdState.system.store.media createdLba =
      true := windowFree_iff.mpr fun _ _ => rfl
  obtain ⟨after, ran, _, buf, media⟩ := @bytePair_run _ 2 [97] (some true)
    createdState.system.store createdLba (fun _ => rfl) (by decide +kernel) ⟨_, rfl⟩
    (by rw [addresses, List.find?_cons_of_pos (by rw [free, Bool.true_or])]) free
  obtain ⟨reached, ranAll, same, noted⟩ := @run_onSystem_liftStore Bool _ _ createAndPut true 2
    (bytePair [97]) plentyMemory rfl _ _ _ _ _ ran
  have put := created.moves (some true) rfl (.seq ranAll (.still _ _))
  have stored : reached.system.store.media = fun lba => if lba = createdLba then
      some (firstSector NvmKvStore.terabyteStore 2 (bytePair [97])
        ((bytePair [97]).layout NvmKvStore.terabyteStore) buf createdState.system.store.clock)
      else none := by
    rw [same, media]
    funext lba
    exact Function.update_apply _ _ _ _
  have inside : NvmKvStore.terabyteStore.usrData.Covers createdLba := by
    unfold NvmBlockRange.Covers
    decide +kernel
  obtain ⟨left, called⟩ := @one_range reached.system.store.media createdLba (by
    rw [stored]
    exact Media.logicalRanges_single inside)
  have works := put.advance none () _ rfl trivial rfl
  have listed := works.advance none (some ([⟨createdLba, 1⟩], left)) _ rfl trivial (by
    rw [← called]
    rfl)
  have mapped : (reached.system.store.media createdLba).isSome = true := by
    rw [stored]
    exact congrArg Option.isSome (if_pos rfl)
  obtain ⟨sector, _⟩ | ⟨pair, recorded, pool⟩ := noted.pairs createdLba mapped
  · rw [sector] at mapped
    exact Bool.noConfusion mapped
  have covers : BatchCovers NvmKvStore.terabyteStore
      [poolRangeIovec NvmKvStore.terabyteStore ⟨createdLba, 1⟩] createdLba :=
    ⟨_, List.mem_singleton_self _, (poolRangeIovec_covers _).mpr
      ⟨Nat.le_refl _, Nat.lt_succ_self _⟩⟩
  obtain ⟨marked, _⟩ := confined _ _ _ _ _ starts listed
    [poolRangeIovec NvmKvStore.terabyteStore ⟨createdLba, 1⟩] _ rfl createdLba pair covers recorded
  have unmarked : bitmapTest copiedPools 2 = false := by decide +kernel
  have copiedBits : reached.round.copied pair.poolId = bitmapTest copiedPools 2 := by
    rw [noted.round, pool]
    rfl
  exact Bool.noConfusion (unmarked.symm.trans (copiedBits.symm.trans marked))

end Nvmkv
