import Nvmkv.BatchRounds

/-!
# Waiting for oneself

`insert_entry` asks whether its address is free and waits when it is not. A caller who is
alone waits without end, for an address that it holds itself. In a program whose only way
to wait is `insert_entry`, this is the only way not to return: a run that starts with none
but its own addresses on the safe list comes to its end exactly when it never asks for an
address that it holds (`neverWaits_iff`).
-/

namespace Nvmkv

variable {ι : Type} {store : NvmKvStore} {thread : ι} {outcome : Nat → Bool}

/-- A program that takes addresses through `insert_entry`: an address that is refused is
waited for at once, and nothing else is. -/
def InsertsEntries {α : Type} : StoreM α → Prop
  | .done _ => True
  | .call (.checkEntry lba) next =>
      (∃ further, next false = .call (.awaitEntry lba) further) ∧ InsertsEntries (next true)
  | .call (.awaitEntry _) _ => False
  | .call .never _ => False
  | .call _ next => ∀ answered, InsertsEntries (next answered)

/-- An address that is asked for is not held by the caller. -/
def NotHeld (thread : ι) (op : StoreOp) (run : DeviceRun ι) : Prop :=
  ∀ lba, op = .checkEntry lba → run.store.safeLbaList lba ≠ some thread

/-- The safe list has no addresses of others. -/
def OnlyOwn (thread : ι) (run : DeviceRun ι) : Prop :=
  ∀ lba, run.store.safeLbaList lba = none ∨ run.store.safeLbaList lba = some thread

/-- A call that does not work on the safe list is answered. -/
theorem answerWith_besides {op : StoreOp} (besides : ¬op.OnSafeList) (returns : op ≠ .never)
    (run : DeviceRun ι) :
    ∃ answered after, answerWith store thread outcome op run = some (answered, after) ∧
      after.store.safeLbaList = run.store.safeLbaList := by
  have given : ∃ answered reached, answer store thread op run.store = some (answered, reached) ∧
      reached.safeLbaList = run.store.safeLbaList := by
    cases op with
    | checkEntry lba => exact absurd trivial besides
    | awaitEntry lba => exact absurd trivial besides
    | deleteEntry lba => exact absurd trivial besides
    | never => exact absurd rfl returns
    | _ => exact ⟨_, _, rfl, rfl⟩
  obtain ⟨answered, reached, reply, same⟩ := given
  unfold answerWith
  cases op.failure with
  | none =>
    rw [reply]
    exact ⟨_, _, rfl, same⟩
  | some failure =>
    dsimp only
    cases outcome run.operations with
    | false => exact ⟨_, _, rfl, rfl⟩
    | true =>
      rw [reply]
      exact ⟨_, _, rfl, same⟩

/-- A program without calls on the safe list does not wait. Induction follows the calls. -/
theorem run_besides_returns {α : Type} {program : StoreM α}
    (plain : program.Calls fun op => ¬op.OnSafeList ∧ op ≠ .never) (run : DeviceRun ι) :
    ∃ result after, program.run (answerWith store thread outcome) run = some (result, after) := by
  induction program generalizing run with
  | done result => exact ⟨result, run, rfl⟩
  | call op next inductionHypothesis =>
    obtain ⟨answered, between, reply, _⟩ :=
      @answerWith_besides _ store thread outcome _ plain.1.1 plain.1.2 run
    rw [Program.run_call, reply]
    exact inductionHypothesis answered (plain.2 answered) between

/-- An address that the thread takes is its own, too. -/
theorem OnlyOwn.hold {run : DeviceRun ι} (own : OnlyOwn thread run) (lba : Nat) :
    OnlyOwn thread (run.hold thread lba) := by
  intro other
  change Function.update run.store.safeLbaList lba (some thread) other = none ∨
    Function.update run.store.safeLbaList lba (some thread) other = some thread
  rw [Function.update_apply]
  split_ifs
  · exact Or.inr rfl
  · exact own other

/-- An address that is released is nobody's. -/
theorem OnlyOwn.release {run : DeviceRun ι} (own : OnlyOwn thread run) (lba : Nat) :
    OnlyOwn thread (run.release lba) := by
  intro other
  change Function.update run.store.safeLbaList lba none other = none ∨
    Function.update run.store.safeLbaList lba none other = some thread
  rw [Function.update_apply]
  split_ifs
  · exact Or.inl rfl
  · exact own other

/-- A free address is given to the caller. -/
theorem answerWith_checkEntry_free {run : DeviceRun ι} {lba : Nat}
    (free : run.store.safeLbaList lba = none) :
    answerWith store thread outcome (.checkEntry lba) run = some (true, run.hold thread lba) := by
  unfold answerWith answer
  simp only [StoreOp.failure, free, Option.isNone_none, if_true, Option.map_some]
  rfl

/-- A held one is refused, whoever holds it. -/
theorem answerWith_checkEntry_held {run : DeviceRun ι} {lba : Nat} {holder : ι}
    (held : run.store.safeLbaList lba = some holder) :
    answerWith store thread outcome (.checkEntry lba) run = some (false, run) := by
  unfold answerWith answer
  simp only [StoreOp.failure, held, Option.isNone_some, Bool.false_eq_true, if_false,
    Option.map_some]

/-- It can not be waited for while it is held: the only thread that runs does not release it. -/
theorem answerWith_awaitEntry_held {run : DeviceRun ι} {lba : Nat} {holder : ι}
    (held : run.store.safeLbaList lba = some holder) :
    answerWith store thread outcome (.awaitEntry lba) run = none := by
  unfold answerWith answer
  simp only [StoreOp.failure, held, Option.isNone_some, Bool.false_eq_true, if_false,
    Option.map_none]

/-- A call that is answered and does not ask for an address of the caller neither makes the
run wait nor keeps it from waiting. -/
theorem neverWaits_call_iff {α : Type} {op : StoreOp} {next : StoreRes op → StoreM α}
    {run reached : DeviceRun ι} {answered : StoreRes op}
    (reply : answerWith store thread outcome op run = some (answered, reached))
    (notHeld : NotHeld thread op run)
    (rest : (next answered).Throughout (answerWith store thread outcome) (NotHeld thread) reached ↔
      ((next answered).run (answerWith store thread outcome) reached).isSome) :
    (Program.call op next).Throughout (answerWith store thread outcome) (NotHeld thread) run ↔
      ((Program.call op next).run (answerWith store thread outcome) run).isSome := by
  rw [Program.throughout_call_iff reply, Program.run_call, reply, Option.bind_some, ← rest]
  exact and_iff_right notHeld

/-- A run that starts with none but its own addresses on the safe list comes to its end just
when it never asks for one of them. Induction follows the calls. -/
theorem neverWaits_iff {α : Type} {program : StoreM α} (inserts : InsertsEntries program)
    {run : DeviceRun ι} (own : OnlyOwn thread run) :
    program.Throughout (answerWith store thread outcome) (NotHeld thread) run ↔
      (program.run (answerWith store thread outcome) run).isSome := by
  induction program generalizing run with
  | done result => exact iff_of_true trivial rfl
  | call op next inductionHypothesis =>
    have besides (plain : ¬op.OnSafeList) (returns : op ≠ .never)
        (further : ∀ answered, InsertsEntries (next answered)) :
        (Program.call op next).Throughout (answerWith store thread outcome) (NotHeld thread) run ↔
          ((Program.call op next).run (answerWith store thread outcome) run).isSome := by
      obtain ⟨answered, after, reply, same⟩ :=
        @answerWith_besides _ store thread outcome _ plain returns run
      have kept : OnlyOwn thread after := by
        unfold OnlyOwn
        rwa [same]
      have notHeld : NotHeld thread op run := by
        intro lba asks
        exact absurd (by rw [asks]; trivial) plain
      exact neverWaits_call_iff reply notHeld
        (inductionHypothesis answered (further answered) kept)
    cases op with
    | checkEntry lba =>
      obtain ⟨⟨further, awaits⟩, goes⟩ := inserts
      rcases own lba with free | held
      · have notHeld : NotHeld thread (.checkEntry lba) run := by
          intro other asks
          cases asks
          rw [free]
          exact Option.some_ne_none thread ∘ Eq.symm
        exact neverWaits_call_iff (answerWith_checkEntry_free free) notHeld
          (inductionHypothesis true goes (own.hold lba))
      · have reply := @answerWith_checkEntry_held _ store thread outcome _ _ _ held
        have waits : (Program.call (.checkEntry lba) next).run
            (answerWith store thread outcome) run = none := by
          rw [Program.run_call, reply, Option.bind_some, awaits, Program.run_call,
            answerWith_awaitEntry_held held, Option.bind_none]
        rw [waits]
        exact iff_of_false (fun throughout => throughout.1 lba rfl held) Bool.false_ne_true
    | awaitEntry lba => exact inserts.elim
    | never => exact inserts.elim
    | deleteEntry lba =>
      have reply : answerWith store thread outcome (.deleteEntry lba) run =
          some ((run.store.safeLbaList lba).isSome, run.release lba) := rfl
      have notHeld : NotHeld thread (.deleteEntry lba) run := by
        intro other asks
        cases asks
      exact neverWaits_call_iff reply notHeld
        (inductionHypothesis _ (inserts _) (own.release lba))
    | _ =>
      refine besides (fun listed => listed) ?_ inserts
      intro same
      cases same

section Programs

variable {α β : Type} {poolId : UInt32} {pair : NvmKvIovec}

/-- Programs in a row insert their addresses when both do. Induction follows the first one. -/
theorem inserts_bind {program : StoreM α} {rest : α → StoreM β} (first : InsertsEntries program)
    (second : ∀ result, InsertsEntries (rest result)) : InsertsEntries (program >>= rest) := by
  induction program with
  | done result => exact second result
  | call op next inductionHypothesis =>
    cases op with
    | checkEntry lba =>
      obtain ⟨⟨further, awaits⟩, goes⟩ := first
      refine ⟨⟨fun answered => further answered >>= rest, ?_⟩, inductionHypothesis true goes⟩
      change next false >>= rest = _
      rw [awaits]
      rfl
    | awaitEntry lba => exact first.elim
    | never => exact first.elim
    | _ => exact fun answered => inductionHypothesis answered (first answered)

/-- So does a choice of two. -/
theorem inserts_ite {condition : Prop} [Decidable condition] {program other : StoreM α}
    (first : InsertsEntries program) (second : InsertsEntries other) :
    InsertsEntries (if condition then program else other) := by
  split_ifs
  · exact first
  · exact second

/-- Behind `insert_entry` only the way on without a wait counts. -/
theorem inserts_insertEntry {lba : Nat} {rest : Bool → StoreM α}
    (goes : InsertsEntries (rest false)) : InsertsEntries (insertEntry lba >>= rest) :=
  ⟨⟨_, rfl⟩, goes⟩

/-- An existence check takes no address. -/
theorem inserts_kvRangeExists (search : NvmBlockRange) : InsertsEntries (kvRangeExists search) := by
  intro found
  cases found <;> trivial

/-- Nor does a reading of the device. -/
theorem inserts_nvmReadv (iovec : List NvmIovec) : InsertsEntries (nvmReadv store iovec) := by
  unfold nvmReadv
  refine inserts_ite trivial (inserts_ite trivial ?_)
  intro read
  cases read <;> trivial

/-- Nor the check of an expiry time. -/
theorem inserts_kvExpire (hdr : NvmKvHeader) (keyLoc : Nat) :
    InsertsEntries (kvExpire store hdr keyLoc false) := by
  unfold kvExpire
  refine inserts_ite trivial ?_
  intro time
  exact inserts_ite trivial trivial

/-- A round of the search inserts its address in two places. There is a round left, so that it does
not run out of fuel. -/
theorem inserts_kvGenLbaRead {lba rounds : Nat} {insertLba : Bool} {buf : Region} :
    InsertsEntries (kvGenLbaRead store poolId pair lba (rounds + 1) insertLba buf) := by
  rw [kvGenLbaRead]
  refine inserts_bind (inserts_nvmReadv _) fun read => ?_
  cases read with
  | error code => trivial
  | ok read =>
    refine inserts_ite (inserts_bind (inserts_kvExpire _ _) fun expired => ?_) ?_
    · cases expired with
      | ok live =>
        refine inserts_ite (inserts_ite trivial ?_) trivial
        exact inserts_insertEntry trivial
      | error code =>
        cases code with
        | objectNotFound =>
          refine inserts_ite trivial ?_
          exact inserts_insertEntry trivial
        | _ => trivial
    · refine inserts_ite ?_ trivial
      exact fun _ => trivial

/-- The search at one address inserts it when the search behind it does so. -/
theorem inserts_kvGenLbaAt {lba : Nat} {insertLba : Bool} {buf : Region}
    {next : Region → StoreM GenLba} (further : ∀ buf, InsertsEntries (next buf)) :
    InsertsEntries (kvGenLbaAt store poolId pair lba insertLba buf next) := by
  refine inserts_bind inserts_kvGenLbaRead fun read => ?_
  cases read with
  | returns result => trivial
  | leaves insertLba trimLen buf =>
    cases insertLba with
    | true => trivial
    | false => exact further buf

/-- The search takes its addresses through `insert_entry`. Induction follows the addresses. -/
theorem inserts_kvGenLbaProbes {lbas : List Nat} {insertLba : Bool} {buf : Region} :
    InsertsEntries (kvGenLbaProbes store poolId pair lbas insertLba buf) := by
  induction lbas generalizing insertLba buf with
  | nil => trivial
  | cons lba rest inductionHypothesis =>
    refine inserts_bind (inserts_kvRangeExists _) fun found => ?_
    cases found with
    | ok range => exact inserts_kvGenLbaAt fun _ => inductionHypothesis
    | error code =>
      cases code with
      | objectNotFound => exact inserts_insertEntry trivial
      | _ => trivial

/-- The search of a put, or of a pair of a batch, whatever it begins at. -/
theorem inserts_kvGenLba {insertLba : Bool} {buf : Region} {lbaList : Option LbaList} :
    InsertsEntries (kvGenLba store poolId pair buf insertLba lbaList) := by
  unfold kvGenLba
  cases lbaList with
  | none => exact inserts_kvGenLbaProbes
  | some chosen =>
    dsimp only
    split
    · trivial
    · trivial
    · exact inserts_kvGenLbaProbes

/-- A pair of a batch inserts a remembered address. -/
theorem inserts_batchCached {state : BatchState} :
    InsertsEntries (batchCached store poolId pair state) := by
  unfold batchCached
  refine inserts_ite ?_ trivial
  rintro ⟨found, context⟩
  refine inserts_ite (inserts_ite trivial (inserts_ite ?_ trivial)) trivial
  cases state.lbaList.lookup context.contextEntry.lba with
  | none => exact inserts_insertEntry trivial
  | some chosenKey => trivial

/-- The vectors of a pair take no address. -/
theorem inserts_batchPrepare {layout : WriteLayout} {placed : GenLba}
    {context : NvmKvCacheContext} {state : BatchState} :
    InsertsEntries (batchPrepare store poolId pair layout placed context state) := by
  unfold batchPrepare
  dsimp only
  cases kvProcessForTrim store.capabilities pair.valueLen placed.trimLen placed.keyHashVal with
  | error code => trivial
  | ok trims =>
    refine inserts_ite trivial (inserts_bind ?_ fun written => trivial)
    unfold kvProcessForWrite
    dsimp only
    split_ifs
    · trivial
    · exact fun _ => trivial

/-- A pair of a batch inserts the address that it searches for. -/
theorem inserts_batchPair {buf : PoolBuf} {state : BatchState} :
    InsertsEntries (batchPair store poolId pair buf state) := by
  unfold batchPair
  refine inserts_ite trivial (inserts_bind inserts_batchCached fun cached => ?_)
  cases cached with
  | error code => trivial
  | ok cached =>
    dsimp only
    cases kvAllocForWrite store.capabilities pair.key.length pair.value pair.valueLen buf with
    | error code => trivial
    | ok allocated =>
      refine inserts_ite trivial (inserts_bind (inserts_ite trivial inserts_kvGenLba) ?_)
      intro placed
      cases placed.retCode with
      | error code => trivial
      | ok done => exact inserts_batchPrepare

/-- The loop over the pairs of a batch. Induction follows the pairs. -/
theorem inserts_batchPairs {buf : Nat → PoolBuf} {i : Nat} {pairs : List NvmKvIovec}
    {state : BatchState} : InsertsEntries (batchPairs store poolId buf i pairs state) := by
  induction pairs generalizing i state with
  | nil => trivial
  | cons pair rest inductionHypothesis =>
    refine inserts_bind inserts_batchPair ?_
    rintro ⟨result, prepared⟩
    cases result with
    | error code => trivial
    | ok done => exact inductionHypothesis

/-- The batch that is handed over takes no address. -/
theorem inserts_batchFinish {state : BatchState} : InsertsEntries (batchFinish store state) := by
  have writes : ∀ iovec, InsertsEntries (nvmWritev iovec) := by
    intro iovec works
    cases works <;> trivial
  refine inserts_bind ?_ fun result => ?_
  · unfold batchWrite
    refine inserts_ite (writes _) (inserts_bind (writes _) fun wrote => ?_)
    cases wrote with
    | error code => trivial
    | ok done => exact inserts_ite (writes _) trivial
  · cases result with
    | error code => trivial
    | ok done => exact inserts_ite (fun _ => trivial) trivial

/-- Addresses are released without asking. -/
theorem inserts_batchRelease {state : BatchState} : InsertsEntries (batchRelease state) := by
  have deletes : ∀ lbas, InsertsEntries (deleteLbas lbas) := by
    intro lbas
    induction lbas with
    | nil => trivial
    | cons lba rest inductionHypothesis => exact fun _ => inductionHypothesis
  exact inserts_ite (deletes _) trivial

/-- A batch put takes its addresses through `insert_entry`. -/
theorem inserts_kvBatchPut {kvIov : List NvmKvIovec} {allocation : BatchAllocation} :
    InsertsEntries (kvBatchPut store poolId kvIov allocation) := by
  refine inserts_bind (fun _ => trivial) fun valid => ?_
  refine inserts_ite trivial (inserts_ite trivial ?_)
  cases allocation.iovec with
  | none => trivial
  | some arrays =>
    refine inserts_bind inserts_batchPairs ?_
    rintro ⟨result, prepared⟩
    cases result with
    | error code => exact inserts_bind inserts_batchRelease fun _ => trivial
    | ok done =>
      refine inserts_bind inserts_batchFinish fun retCode => ?_
      exact inserts_bind inserts_batchRelease fun _ => trivial

end Programs

end Nvmkv
