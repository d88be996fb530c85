import Nvmkv.LoneDelete
import Nvmkv.ReadingCalls
import Nvmkv.StoreCalls
import Nvmkv.StoredPairs

/-!
# Outlines of what holds the safe list

A discipline protects the safe list when the steps of a thread leave the addresses
of the others alone. Under such a discipline the parts of the operations keep an
account of the addresses that their thread holds: inserting an address adds it to
the account, removing one of the account takes it away, and everything that only
reads keeps it. The outlines here say so for the parts that several operations
share, from the insertion of one address to the search of a put.

An address that is in the account already can not be inserted again by the same
thread: the insertion is never answered, so that what is claimed after it holds.
-/

namespace Nvmkv

variable {ι : Type} {store : NvmKvStore}

/-- Taking a free address leaves the others with their holders. -/
theorem StoreState.hold_others {state : StoreState ι} {thread other : ι} {lba : Nat}
    (free : state.safeLbaList lba = none) (apart : other ≠ thread) (held : Nat) :
    (state.hold thread lba).safeLbaList held = some other ↔
      state.safeLbaList held = some other := by
  simp only [StoreState.hold, Function.update_apply]
  split_ifs with here
  · rw [here, free]
    exact ⟨fun same => absurd (Option.some.inj same).symm apart,
      fun none => absurd none.symm (Option.some_ne_none _)⟩
  · exact Iff.rfl

/-- Releasing an address of its own a thread leaves the others with their holders. -/
theorem StoreState.release_others {state : StoreState ι} {thread other : ι} {lba : Nat}
    (own : state.safeLbaList lba = some thread) (apart : other ≠ thread) (held : Nat) :
    (state.release lba).safeLbaList held = some other ↔ state.safeLbaList held = some other := by
  simp only [StoreState.release, Function.update_apply]
  split_ifs with here
  · rw [here, own]
    exact ⟨fun never => never.elim,
      fun same => absurd (Option.some.inj same).symm apart⟩
  · exact Iff.rfl

/-- The addresses that a thread holds are those of a list, which are all different. -/
def Account (thread : ι) (lbas : List Nat) (state : StoreState ι) : Prop :=
  lbas.Nodup ∧ ∀ lba, state.safeLbaList lba = some thread ↔ lba ∈ lbas

namespace Account

variable {thread : ι} {lbas : List Nat} {lba : Nat} {state : StoreState ι}

/-- The order of the addresses that a thread holds does not matter. -/
theorem perm {other : List Nat} (account : Account thread lbas state)
    (same : lbas.Perm other) : Account thread other state :=
  ⟨same.nodup_iff.mp account.1, fun lba => (account.2 lba).trans same.mem_iff⟩

/-- An address that was free is not among those held. -/
theorem take (account : Account thread lbas state) (free : state.safeLbaList lba = none) :
    Account thread (lba :: lbas) (state.hold thread lba) := by
  have apart : lba ∉ lbas := by
    intro member
    rw [(account.2 lba).mpr member] at free
    exact nomatch free
  refine ⟨List.nodup_cons.mpr ⟨apart, account.1⟩, ?_⟩
  intro held
  simp only [StoreState.hold, Function.update_apply, List.mem_cons]
  split_ifs with here
  · exact ⟨fun _ => Or.inl here, fun _ => rfl⟩
  · exact (account.2 held).trans ⟨Or.inr, fun member => member.resolve_left here⟩

/-- Releasing an address leaves the others. -/
theorem drop (account : Account thread (lba :: lbas) state) :
    Account thread lbas (state.release lba) := by
  obtain ⟨apart, distinct⟩ := List.nodup_cons.mp account.1
  refine ⟨distinct, ?_⟩
  intro held
  simp only [StoreState.release, Function.update_apply]
  split_ifs with here
  · exact iff_of_false not_false fun member => apart (here ▸ member)
  · exact (account.2 held).trans
      ⟨fun member => (List.mem_cons.mp member).resolve_left here, List.mem_cons_of_mem _⟩

end Account

/-- A discipline under which what only reads may be done at any time. -/
structure ReadsFreely (discipline : Discipline StoreOp (StoreState ι) ι) : Prop where
  still : ∀ thread state, discipline.rely thread state state
  reads : ∀ {thread op state}, op.Reads → discipline.checked thread op state

namespace ReadsFreely

variable {discipline : Discipline StoreOp (StoreState ι) ι} (free : ReadsFreely discipline)
  {thread : ι}
include free

/-- What only reads keeps every stable assertion. Induction follows the calls. -/
theorem outline_reads {α : Type} {program : StoreM α} {assertion : StoreState ι → Prop}
    (reads : program.Calls StoreOp.Reads) (stable : discipline.Stable thread assertion) :
    discipline.Outline (answer store) thread program assertion fun _ => assertion := by
  induction program with
  | done result => exact fun _ _ holds => holds
  | call op next inductionHypothesis =>
    obtain ⟨here, further⟩ := reads
    refine ⟨assertion, stable, fun _ _ holds => holds, ?_⟩
    intro state invariant holds
    refine ⟨free.reads here, ?_⟩
    intro answered reached _ reply
    obtain rfl := here.unchanged reply
    exact ⟨invariant, fun other _ => free.still other reached, assertion, holds,
      inductionHypothesis answered (further answered)⟩

/-- It returns besides what it can return. -/
theorem outline_reads_returns {α : Type} {program : StoreM α} {assertion : StoreState ι → Prop}
    {ends : α → Prop} (reads : program.Calls StoreOp.Reads) (returns : program.Returns ends)
    (stable : discipline.Stable thread assertion) :
    discipline.Outline (answer store) thread program assertion
      fun result state => assertion state ∧ ends result :=
  (free.outline_reads reads stable).learns (.of_returns returns)

/-- What a thread learns from the sector that it reads: that it could read it was
allowed, and it got what was there. -/
theorem outline_nvmReadv_sector {before : StoreState ι → Prop}
    {learned : Region → StoreState ι → Prop} {buf : Region} {lba : Nat}
    (stable : discipline.Stable thread before)
    (told : ∀ state, discipline.invariant state → before state →
      discipline.allowed thread
        (.readv [⟨poolBuffer buf, store.sectorSize, lba, .write⟩]) state →
      learned (slotBuffer store state.media buf lba) state) :
    discipline.Outline (answer store) thread
      (nvmReadv store [⟨poolBuffer buf, store.sectorSize, lba, .write⟩]) before
      fun read state => before state ∧ ∀ readLen regions, read = .ok (readLen, regions) →
        ∃ region, regions = [region] ∧ learned region state := by
  have failed : ∀ (code : NvmErrorCode) (state : StoreState ι), before state →
      before state ∧ ∀ readLen regions, (.error code : Except NvmErrorCode (Nat × List Region)) =
        .ok (readLen, regions) → ∃ region, regions = [region] ∧ learned region state :=
    fun _ _ holds => ⟨holds, fun _ _ read => by cases read⟩
  refine Discipline.Outline.ite (fun _ state _ => failed _ state) fun _ => ?_
  refine Discipline.Outline.ite (fun _ state _ => failed _ state) fun _ => ?_
  have asked : discipline.Outline (answer store) thread
      (preadv [⟨poolBuffer buf, store.sectorSize, lba, .write⟩]) before
      fun read state => before state ∧ ∃ region, read = some [region] ∧ learned region state := by
    refine Discipline.Outline.perform stable ?_
    intro state invariant holds
    refine ⟨free.reads trivial, ?_⟩
    intro answered reached allowed reply
    obtain ⟨rfl, rfl⟩ := Prod.mk.inj (Option.some.inj reply)
    refine ⟨invariant, fun other _ => free.still other state, holds, _, rfl, ?_⟩
    simpa only [slotBuffer, poolBuffer, Media.fillBuffers, Region.drop_zero] using
      told state invariant holds allowed
  refine Discipline.Outline.bind asked fun read => ?_
  cases read with
  | none => exact fun state _ holds => failed _ state holds.1
  | some regions =>
    rintro state _ ⟨holds, region, same, known⟩
    refine ⟨holds, ?_⟩
    intro readLen others read
    obtain ⟨_, rfl⟩ := Prod.mk.inj (Except.ok.inj read)
    exact ⟨region, Option.some.inj same, known⟩

end ReadsFreely

/-- A discipline that protects the safe list: no thread touches the addresses of
another, inserting a free address and removing an own one keep the discipline, and
what only reads may be done at any time. -/
structure ProtectsSafeList (store : NvmKvStore)
    (discipline : Discipline StoreOp (StoreState ι) ι) : Prop where
  kept : ∀ {thread before after lba}, discipline.rely thread before after →
    (after.safeLbaList lba = some thread ↔ before.safeLbaList lba = some thread)
  still : ∀ thread state, discipline.rely thread state state
  reads : ∀ {thread op state}, op.Reads → discipline.checked thread op state
  asks : ∀ thread lba state, discipline.checked thread (.checkEntry lba) state ∧
    discipline.checked thread (.awaitEntry lba) state
  takes : ∀ {thread lba state}, discipline.invariant state →
    discipline.allowed thread (.checkEntry lba) state ∨
      discipline.allowed thread (.awaitEntry lba) state → state.safeLbaList lba = none →
    discipline.invariant (state.hold thread lba) ∧
      ∀ other, other ≠ thread → discipline.rely other state (state.hold thread lba)
  removes : ∀ {thread lba state}, discipline.invariant state →
    state.safeLbaList lba = some thread → discipline.checked thread (.deleteEntry lba) state ∧
      discipline.invariant (state.release lba) ∧
      ∀ other, other ≠ thread → discipline.rely other state (state.release lba)

namespace ProtectsSafeList

variable {discipline : Discipline StoreOp (StoreState ι) ι}
  (protects : ProtectsSafeList store discipline) {thread : ι} {lbas : List Nat} {lba : Nat}
include protects

/-- So what only reads may be done at any time. -/
theorem readsFreely : ReadsFreely discipline := ⟨protects.still, protects.reads⟩

/-- What a thread holds stays its own whatever the others do. -/
theorem stable_account : discipline.Stable thread (Account thread lbas) :=
  fun _ _ _ _ relied account =>
    ⟨account.1, fun lba => (protects.kept relied).trans (account.2 lba)⟩

/-- A call that is not answered has every end. -/
theorem outline_never {α : Type} {before : StoreState ι → Prop} {after : α → StoreState ι → Prop} :
    discipline.Outline (answer store) thread neverReturns before after :=
  ⟨fun _ => True, fun _ _ _ _ _ _ => trivial, fun _ _ _ => trivial, fun _ _ _ =>
    ⟨protects.reads trivial, fun absurd => nomatch absurd⟩⟩

/-- An address that was checked and free is held. That it could be taken was once
allowed. -/
theorem outline_checkEntry : discipline.Outline (answer store) thread (checkEntry lba)
    (Account thread lbas)
    fun free state => Account thread (if free then lba :: lbas else lbas) state ∧
      (free = true → ∃ earlier, discipline.allowed thread (.checkEntry lba) earlier ∧
        earlier.safeLbaList lba = none) := by
  refine Discipline.Outline.perform protects.stable_account ?_
  intro state invariant account
  refine ⟨(protects.asks thread lba state).1, ?_⟩
  intro answered reached allowed reply
  rw [answer] at reply
  split_ifs at reply with free
  · rw [Option.isNone_iff_eq_none] at free
    obtain ⟨rfl, rfl⟩ := Prod.mk.inj (Option.some.inj reply)
    obtain ⟨kept, relied⟩ := @takes _ _ _ protects thread lba state invariant (.inl allowed) free
    exact ⟨kept, relied, account.take free, fun _ => ⟨state, allowed, free⟩⟩
  · obtain ⟨rfl, rfl⟩ := Prod.mk.inj (Option.some.inj reply)
    exact ⟨invariant, fun other _ => protects.still other state, account,
      fun taken => Bool.noConfusion taken⟩

/-- An address that was waited for is held besides those before. -/
theorem outline_awaitEntry : discipline.Outline (answer store) thread (awaitEntry lba)
    (Account thread lbas) fun _ => Account thread (lba :: lbas) := by
  refine Discipline.Outline.perform protects.stable_account ?_
  intro state invariant account
  refine ⟨(protects.asks thread lba state).2, ?_⟩
  intro answered reached allowed reply
  rw [answer] at reply
  split_ifs at reply with free
  rw [Option.isNone_iff_eq_none] at free
  obtain ⟨_, rfl⟩ := Prod.mk.inj (Option.some.inj reply)
  obtain ⟨kept, relied⟩ := @takes _ _ _ protects thread lba state invariant (.inr allowed) free
  exact ⟨kept, relied, account.take free⟩

/-- An inserted address joins those held. Taking it without waiting was allowed while
it was free. -/
theorem outline_insertEntry_free : discipline.Outline (answer store) thread (insertEntry lba)
    (Account thread lbas)
    fun wait state => Account thread (lba :: lbas) state ∧
      (wait = false → ∃ earlier, discipline.allowed thread (.checkEntry lba) earlier ∧
        earlier.safeLbaList lba = none) := by
  refine Discipline.Outline.bind protects.outline_checkEntry fun free => ?_
  cases free with
  | true => exact fun _ _ holds => ⟨holds.1, fun _ => holds.2 rfl⟩
  | false =>
    refine Discipline.Outline.bind (protects.outline_awaitEntry.strengthen fun _ _ holds => holds.1)
      fun _ => ?_
    exact fun _ _ holds => ⟨holds, nofun⟩

/-- An inserted address joins those held, whether the caller waited or not. -/
theorem outline_insertEntry : discipline.Outline (answer store) thread (insertEntry lba)
    (Account thread lbas) fun _ => Account thread (lba :: lbas) :=
  protects.outline_insertEntry_free.weaken fun _ _ _ holds => holds.1

/-- An address that is released is not held any more. -/
theorem outline_deleteLba : discipline.Outline (answer store) thread (deleteLbaFromSafeList lba)
    (Account thread (lba :: lbas)) fun _ => Account thread lbas := by
  refine Discipline.Outline.perform protects.stable_account ?_
  intro state invariant account
  obtain ⟨checked, kept, relied⟩ :=
    @removes _ _ _ protects thread lba state invariant
      ((account.2 lba).mpr List.mem_cons_self)
  refine ⟨checked, ?_⟩
  intro answered reached _ reply
  obtain ⟨_, rfl⟩ := Prod.mk.inj (Option.some.inj reply)
  exact ⟨kept, relied, account.drop⟩

/-- Inserted addresses join those held, in reverse order. -/
theorem outline_insertEntries {more : List Nat} :
    discipline.Outline (answer store) thread (insertEntries more) (Account thread lbas)
      fun _ => Account thread (more.reverse ++ lbas) := by
  induction more generalizing lbas with
  | nil => exact fun _ _ account => account
  | cons lba rest inductionHypothesis =>
    refine Discipline.Outline.bind protects.outline_insertEntry fun _ => ?_
    rw [List.reverse_cons, List.append_assoc, List.singleton_append]
    exact inductionHypothesis

/-- Removed addresses are no longer held. -/
theorem outline_deleteLbas {removed : List Nat} :
    discipline.Outline (answer store) thread (deleteLbas removed)
      (Account thread (removed ++ lbas)) fun _ => Account thread lbas := by
  induction removed with
  | nil => exact fun _ _ account => account
  | cons lba rest inductionHypothesis =>
    exact Discipline.Outline.bind protects.outline_deleteLba fun _ => inductionHypothesis

end ProtectsSafeList

/-- What a search for an address leaves to the account of its thread: the flag tells
whether the address found is held, and a search that succeeds holds it. -/
def GenLbaHeld (thread : ι) (lbas : List Nat) (result : GenLba) (state : StoreState ι) : Prop :=
  if result.insertLba then Account thread (result.keyHashVal :: lbas) state
  else Account thread lbas state ∧ result.retCode ≠ .ok ()

/-- A search that ends with an error. -/
theorem GenLbaHeld.refused {thread : ι} {lbas : List Nat} {code : NvmErrorCode} {trimLen lba : Nat}
    {insertLba : Bool} {buf : Region} {state : StoreState ι}
    (account : Account thread (if insertLba then lba :: lbas else lbas) state) :
    GenLbaHeld thread lbas ⟨.error code, trimLen, lba, insertLba, buf⟩ state := by
  cases insertLba with
  | true => exact account
  | false => exact ⟨account, nofun⟩

/-- What the reading of one address leaves to the account of its thread. -/
def SlotHeld (thread : ι) (lbas : List Nat) (lba : Nat) : SlotRead → StoreState ι → Prop
  | .returns result => GenLbaHeld thread lbas result
  | .leaves insertLba _ _ => Account thread (if insertLba then lba :: lbas else lbas)

namespace ProtectsSafeList

variable {discipline : Discipline StoreOp (StoreState ι) ι}
  (protects : ProtectsSafeList store discipline) {thread : ι} {lbas : List Nat} {lba : Nat}
  {poolId : UInt32} {pair : NvmKvIovec} {buf : Region}
include protects

/-- The reading of an address that is held, or not held and then inserted. Induction follows the
rounds: a second one starts with the address inserted. An address that is to be taken is inserted in
this round, or was inserted before. -/
theorem outline_kvGenLbaRead {rounds : Nat} {insertLba : Bool} :
    discipline.Outline (answer store) thread
      (kvGenLbaRead store poolId pair lba rounds insertLba buf)
      (Account thread (if insertLba then lba :: lbas else lbas)) (SlotHeld thread lbas lba) := by
  have keeps : ∀ {insertLba : Bool}, discipline.Stable thread
      (Account thread (if insertLba then lba :: lbas else lbas)) :=
    fun {_} => protects.stable_account
  induction rounds generalizing insertLba buf with
  | zero => exact protects.outline_never
  | succ rounds inductionHypothesis =>
    have taken : ∀ {found : SlotRead} {read : Region},
        (∀ state, Account thread (lba :: lbas) state → SlotHeld thread lbas lba found state) →
        discipline.Outline (answer store) thread
          (if insertLba then pure found
          else do
            let wait ← insertEntry lba
            if wait then kvGenLbaRead store poolId pair lba rounds true read else pure found)
          (Account thread (if insertLba then lba :: lbas else lbas))
          (SlotHeld thread lbas lba) := by
      intro found read ends
      cases insertLba with
      | true => exact fun state _ account => ends state account
      | false =>
        refine Discipline.Outline.bind protects.outline_insertEntry fun wait => ?_
        cases wait with
        | true => exact @inductionHypothesis read true
        | false => exact fun state _ account => ends state account
    refine Discipline.Outline.bind (protects.readsFreely.outline_reads (reads_nvmReadv _) keeps)
      fun read => ?_
    cases read with
    | error code => exact fun state _ account => .refused account
    | ok result =>
      refine Discipline.Outline.ite (fun matched => ?_) fun other =>
        Discipline.Outline.ite (fun held => ?_) fun free => ?_
      · refine Discipline.Outline.bind (protects.readsFreely.outline_reads
          (reads_kvExpire_keep _ _) keeps)
          fun expired => ?_
        split
        · exact taken fun state account => account
        · exact fun state _ account => .refused account
        · refine Discipline.Outline.ite (fun replace => ?_) fun keep => ?_
          · exact taken fun state account => account
          · exact fun state _ account => .refused account
      · rw [if_pos held]
        exact Discipline.Outline.bind protects.outline_deleteLba fun _ _ _ account => account
      · rw [if_neg free]
        exact fun state _ account => account

/-- Reading one address of a search and going on when it is not taken. -/
theorem outline_kvGenLbaAt {insertLba : Bool} {next : Region → StoreM GenLba}
    (further : ∀ buf, discipline.Outline (answer store) thread (next buf) (Account thread lbas)
      (GenLbaHeld thread lbas)) :
    discipline.Outline (answer store) thread
      (kvGenLbaAt store poolId pair lba insertLba buf next)
      (Account thread (if insertLba then lba :: lbas else lbas)) (GenLbaHeld thread lbas) := by
  refine Discipline.Outline.bind protects.outline_kvGenLbaRead fun read => ?_
  split
  · exact fun state _ account => account
  · exact fun state _ account => account
  · exact further _

/-- The search along addresses of which none was taken for this pair before. -/
theorem outline_kvGenLbaProbes {probes : List Nat} :
    discipline.Outline (answer store) thread
      (kvGenLbaProbes store poolId pair probes false buf) (Account thread lbas)
      (GenLbaHeld thread lbas) := by
  induction probes generalizing buf with
  | nil => exact fun state _ account => .refused account
  | cons lba rest inductionHypothesis =>
    refine Discipline.Outline.bind
      (protects.readsFreely.outline_reads (reads_kvRangeExists _) protects.stable_account)
      fun found => ?_
    split
    · refine Discipline.Outline.bind protects.outline_insertEntry fun wait => ?_
      refine Discipline.Outline.ite (fun waited => ?_) fun _ => fun state _ account => account
      exact @outline_kvGenLbaAt _ _ _ protects thread lbas lba poolId pair buf true _
        fun _ => inductionHypothesis
    · exact fun state _ account => .refused account
    · exact @outline_kvGenLbaAt _ _ _ protects thread lbas lba poolId pair buf false _
        fun _ => inductionHypothesis

end ProtectsSafeList

/-- The vectors that are prepared for a pair, for some time of the clock. -/
theorem returns_kvProcessForWrite (poolId : UInt32) (pair : NvmKvIovec) (layout : WriteLayout)
    (buf : Region) (lba : Nat) :
    (kvProcessForWrite store.capabilities poolId pair layout buf (putExpiry store pair) lba).Returns
      fun prepared => ∃ clock, prepared = (putIovec store poolId pair layout buf clock lba,
        absoluteExpiry (putExpiry store pair) clock) := by
  unfold kvProcessForWrite
  split_ifs
  · exact ⟨0, rfl⟩
  · exact fun clock => ⟨clock, rfl⟩

/-- What the reading of one address found satisfies a condition on the length to be trimmed. -/
def SlotRead.Trims (trims : Nat → Prop) : SlotRead → Prop
  | .returns result => trims result.trimLen
  | .leaves _ trimLen _ => trims trimLen

section Trims

variable {discipline : Discipline StoreOp (StoreState ι) ι} {thread : ι} {lba : Nat} {buf : Region}

/-- What a thread learns from the sector that it reads, whenever it reads it. -/
theorem learns_nvmReadv_sector {learned : Region → Prop}
    (told : ∀ state, discipline.invariant state →
      discipline.allowed thread (.readv [⟨poolBuffer buf, store.sectorSize, lba, .write⟩]) state →
      learned (slotBuffer store state.media buf lba)) :
    discipline.Learns (answer store) thread
      (fun read => ∀ readLen regions, read = .ok (readLen, regions) →
        ∃ region, regions = [region] ∧ learned region)
      (nvmReadv store [⟨poolBuffer buf, store.sectorSize, lba, .write⟩]) := by
  have asked : discipline.Learns (answer store) thread
      (fun read => ∃ region, read = some [region] ∧ learned region)
      (preadv [⟨poolBuffer buf, store.sectorSize, lba, .write⟩]) := by
    refine Discipline.Learns.perform ?_
    intro state answered reached invariant allowed reply
    obtain ⟨rfl, _⟩ := Prod.mk.inj (Option.some.inj reply)
    refine ⟨_, rfl, ?_⟩
    simpa only [slotBuffer, poolBuffer, Media.fillBuffers, Region.drop_zero] using
      told state invariant allowed
  refine Discipline.Learns.ite (fun _ _ _ read => by cases read) fun _ => ?_
  refine Discipline.Learns.ite (fun _ _ _ read => by cases read) fun _ => ?_
  refine Discipline.Learns.bind asked fun read known => ?_
  obtain ⟨region, rfl, holds⟩ := known
  intro readLen regions read
  obtain ⟨_, rfl⟩ := Prod.mk.inj (Except.ok.inj read)
  exact ⟨region, rfl, holds⟩

/-- What a put knows of the length that it trims away: none is trimmed when nothing longer is
replaced, and a longer value is one whose header it read, or whose entry the cache had. -/
structure KnowsTrims (store : NvmKvStore) (discipline : Discipline StoreOp (StoreState ι) ι)
    (thread : ι) (poolId : UInt32) (pair : NvmKvIovec) (trims : Nat → Prop) : Prop where
  none : trims 0
  replaced : ∀ {buf lba state}, discipline.invariant state →
    discipline.allowed thread (.readv [⟨poolBuffer buf, store.sectorSize, lba, .write⟩]) state →
    holds store state.media poolId pair.key lba = true →
    trims (replacedLen (storedHeader store state.media lba) pair.valueLen)
  remembered : ∀ {state found after}, discipline.invariant state →
    discipline.allowed thread (.cacheGet pair.key poolId) state →
    answer store thread (.cacheGet pair.key poolId) state = some ((true, found), after) →
    trims (if pair.valueLen < found.contextEntry.valueLen then found.contextEntry.valueLen else 0)

/-- A put may know nothing of the length. -/
theorem KnowsTrims.anything (poolId : UInt32) (pair : NvmKvIovec) :
    KnowsTrims store discipline thread poolId pair fun _ => True :=
  ⟨trivial, fun _ _ _ => trivial, fun _ _ _ => trivial⟩

namespace KnowsTrims

variable {poolId : UInt32} {pair : NvmKvIovec} {trims : Nat → Prop}
  (knows : KnowsTrims store discipline thread poolId pair trims)
  (short : pair.key.length ≤ nvmKvMaxKeySize)
include knows short

/-- What the reading of one address tells of the length that is trimmed. A header of the key that
is read tells it; induction follows the rounds, of which the last one read decides. -/
theorem learns_kvGenLbaRead {rounds : Nat} {insertLba : Bool} :
    discipline.Learns (answer store) thread (SlotRead.Trims trims)
      (kvGenLbaRead store poolId pair lba rounds insertLba buf) := by
  induction rounds generalizing insertLba buf with
  | zero => exact fun _ absurd => nomatch absurd
  | succ rounds inductionHypothesis =>
    have taken : ∀ {found : SlotRead} {read : Region}, found.Trims trims →
        discipline.Learns (answer store) thread (SlotRead.Trims trims)
          (if insertLba then pure found
          else do
            let wait ← insertEntry lba
            if wait then kvGenLbaRead store poolId pair lba rounds true read else pure found) := by
      intro found read told
      refine Discipline.Learns.ite (fun _ => told) fun _ => ?_
      exact Discipline.Learns.bind (.of_returns .any) fun wait _ =>
        Discipline.Learns.ite (fun _ => inductionHypothesis) fun _ => told
    refine Discipline.Learns.bind (@learns_nvmReadv_sector _ store discipline thread lba buf
      (fun region => headerMatches region poolId pair.key = true →
        trims (replacedLen (readHeader region) pair.valueLen)) ?_) fun read told => ?_
    · intro state invariant allowed matched
      rw [headerMatches_slotBuffer store state.media buf lba poolId short] at matched
      rw [readHeader_slotBuffer]
      exact knows.replaced invariant allowed matched
    · cases read with
      | error code => exact knows.none
      | ok result =>
        obtain ⟨readLen, regions⟩ := result
        obtain ⟨region, rfl, longer⟩ := told readLen regions rfl
        refine Discipline.Learns.ite (fun matched => ?_) fun other => ?_
        · refine Discipline.Learns.bind (.of_returns .any) fun expired _ => ?_
          split
          · exact taken knows.none
          · exact knows.none
          · exact Discipline.Learns.ite (fun _ => taken (longer matched)) fun _ => knows.none
        · exact Discipline.Learns.ite
            (fun _ => Discipline.Learns.bind (.of_returns .any) fun _ _ => knows.none)
            fun _ => knows.none

/-- What a search tells of the length that is trimmed. Induction follows the addresses. -/
theorem learns_kvGenLbaProbes {probes : List Nat} {insertLba : Bool} :
    discipline.Learns (answer store) thread (fun placed => trims placed.trimLen)
      (kvGenLbaProbes store poolId pair probes insertLba buf) := by
  induction probes generalizing insertLba buf with
  | nil => exact knows.none
  | cons lba rest inductionHypothesis =>
    have here : ∀ insertLba, discipline.Learns (answer store) thread
        (fun placed => trims placed.trimLen) (kvGenLbaAt store poolId pair lba insertLba buf
          fun buf => kvGenLbaProbes store poolId pair rest false buf) := by
      intro insertLba
      refine Discipline.Learns.bind (knows.learns_kvGenLbaRead short) fun read told => ?_
      split
      · exact told
      · exact told
      · exact inductionHypothesis
    refine Discipline.Learns.bind (.of_returns .any) fun found _ => ?_
    split
    · exact Discipline.Learns.bind (.of_returns .any) fun wait _ =>
        Discipline.Learns.ite (fun _ => here true) fun _ => knows.none
    · exact knows.none
    · exact here insertLba

end KnowsTrims

end Trims

/-- What a put leaves to the account of its thread: the address that it releases. -/
def PutHeld (thread : ι) (body : PutBody) (state : StoreState ι) : Prop :=
  Account thread (if body.insertLba then [body.keyHashVal] else []) state

namespace ProtectsSafeList

variable {discipline : Discipline StoreOp (StoreState ι) ι}
  (protects : ProtectsSafeList store discipline) {thread : ι} {poolId : UInt32}
  {pair : NvmKvIovec} {allocation : Allocation} {trims : Nat → Prop}
  (written : ∀ (layout : WriteLayout) (unused : Region) (placed : GenLba)
    (context : NvmKvCacheContext), (kvValidateKey pair.key && kvValidateValue store false
      pair.valueLen) = true →
    kvAllocForWrite store.capabilities pair.key.length pair.value pair.valueLen allocation.buf =
      .ok (layout, unused) → placed.insertLba = true → trims placed.trimLen →
    discipline.Outline (answer store) thread
      (kvPutWrite store poolId pair layout placed allocation.iovec context)
      (Account thread [placed.keyHashVal]) (PutHeld thread))
include written

/-- The part of a put after its address is known. -/
theorem outline_putPlaced {layout : WriteLayout} {unused : Region} {placed : GenLba}
    {context : NvmKvCacheContext}
    (valid : (kvValidateKey pair.key && kvValidateValue store false pair.valueLen) = true)
    (allocated : kvAllocForWrite store.capabilities pair.key.length pair.value pair.valueLen
      allocation.buf = .ok (layout, unused)) :
    discipline.Outline (answer store) thread
      (match placed.retCode with
      | .error code => pure ⟨.error code, placed.keyHashVal, placed.insertLba⟩
      | .ok () => kvPutWrite store poolId pair layout placed allocation.iovec context)
      (fun state => GenLbaHeld thread [] placed state ∧ trims placed.trimLen)
      (PutHeld thread) := by
  refine Discipline.Outline.given fun known => ?_
  obtain ⟨retCode, trimLen, keyHashVal, insertLba, buf⟩ := placed
  cases retCode with
  | error code =>
    intro state _ account
    cases insertLba with
    | true => exact account
    | false => exact account.1
  | ok done =>
    cases insertLba with
    | true => exact written layout unused _ context valid allocated rfl known
    | false =>
      have never : discipline.Outline (answer store) thread
          (kvPutWrite store poolId pair layout ⟨.ok done, trimLen, keyHashVal, false, buf⟩
            allocation.iovec context)
          (fun state => Account thread [] state ∧ False) (PutHeld thread) :=
        Discipline.Outline.given fun absurd => absurd.elim
      exact never.strengthen fun state _ account => ⟨account.1, account.2 rfl⟩

/-- The placing of a put whose remembered address was taken. Without memory for the
pair the put releases address 0 in its place. -/
theorem outline_kvPutPlace_remembered {context : NvmKvCacheContext}
    {ends : PutBody → StoreState ι → Prop}
    (valid : (kvValidateKey pair.key && kvValidateValue store false pair.valueLen) = true)
    (known : trims (if pair.valueLen < context.contextEntry.valueLen
      then context.contextEntry.valueLen else 0))
    (keeps : ∀ body state, PutHeld thread body state → ends body state)
    (lost : ∀ code, kvAllocForWrite store.capabilities pair.key.length pair.value pair.valueLen
      allocation.buf = .error code → ∀ state,
        Account thread [context.contextEntry.lba] state → ends ⟨.error code, 0, true⟩ state) :
    discipline.Outline (answer store) thread
      (kvPutPlace store poolId pair allocation context true)
      (Account thread [context.contextEntry.lba]) ends := by
  unfold kvPutPlace
  split
  · rename_i code failed
    exact fun state _ account => lost code failed state account
  · rename_i layout buf allocated
    refine Discipline.Outline.ite (fun _ => ?_) fun missed => absurd rfl missed
    have placed : ∀ placed : GenLba, placed.insertLba = true →
        placed.keyHashVal = context.contextEntry.lba → trims placed.trimLen →
        discipline.Outline (answer store) thread
          (pure placed) (Account thread [context.contextEntry.lba])
          fun result state => GenLbaHeld thread [] result state ∧ trims result.trimLen := by
      intro placed held here longer state _ account
      rw [GenLbaHeld, if_pos held, here]
      exact ⟨account, longer⟩
    exact Discipline.Outline.bind (placed _ rfl rfl known) fun placed =>
      (outline_putPlaced written valid allocated).weaken fun body state _ => keeps body state

include protects

variable (knows : kvValidateKey pair.key = true →
  KnowsTrims store discipline thread poolId pair trims)
include knows

/-- The placing of a put that the cache knows nothing of. -/
theorem outline_kvPutPlace_searched {context : NvmKvCacheContext}
    (valid : (kvValidateKey pair.key && kvValidateValue store false pair.valueLen) = true) :
    discipline.Outline (answer store) thread
      (kvPutPlace store poolId pair allocation context false) (Account thread [])
      (PutHeld thread) := by
  have accepted := (Bool.and_eq_true_iff.mp valid).1
  have short : pair.key.length ≤ nvmKvMaxKeySize := (of_decide_eq_true accepted).2
  unfold kvPutPlace
  split
  · exact fun _ _ account => account
  · rename_i layout buf allocated
    exact Discipline.Outline.bind
      (protects.outline_kvGenLbaProbes.learns ((knows accepted).learns_kvGenLbaProbes short))
      fun placed =>
        outline_putPlaced written valid allocated

/-- The body of a put. `lost` is what becomes of an address that the cache remembers and for whose
pair there is no memory: it was free when it was taken. -/
theorem outline_kvPutBody {ends : PutBody → StoreState ι → Prop}
    (keeps : ∀ body state, PutHeld thread body state → ends body state)
    (lost : ∀ code, kvAllocForWrite store.capabilities pair.key.length pair.value pair.valueLen
      allocation.buf = .error code → ∀ lba earlier,
        discipline.allowed thread (.checkEntry lba) earlier → earlier.safeLbaList lba = none →
          ∀ state, Account thread [lba] state → ends ⟨.error code, 0, true⟩ state) :
    discipline.Outline (answer store) thread (kvPutBody store poolId pair allocation)
      (Account thread []) ends := by
  refine Discipline.Outline.bind (protects.readsFreely.outline_reads (reads_kvValidatePoolId _)
    protects.stable_account) fun known => ?_
  refine Discipline.Outline.ite (fun _ => fun state _ account => keeps _ state account)
    fun accepted => ?_
  have valid : (kvValidateKey pair.key && kvValidateValue store false pair.valueLen) = true := by
    simp only [Bool.or_eq_true, Bool.not_eq_true', not_or, Bool.not_eq_false] at accepted
    rw [accepted.1.2, accepted.2]
    rfl
  have searched : ∀ context, discipline.Outline (answer store) thread
      (kvPutPlace store poolId pair allocation context false) (Account thread []) ends :=
    fun context => (protects.outline_kvPutPlace_searched written knows valid).weaken
      fun body state _ => keeps body state
  have told : discipline.Learns (answer store) thread
      (fun result : Bool × NvmKvCacheContext => result.1 = true →
        trims (if pair.valueLen < result.2.contextEntry.valueLen
          then result.2.contextEntry.valueLen else 0)) (askCacheGet pair.key poolId) := by
    refine Discipline.Learns.perform ?_
    rintro state ⟨found, context⟩ reached invariant allowed reply rfl
    exact (knows (Bool.and_eq_true_iff.mp valid).1).remembered invariant allowed reply
  have reads : (askCacheGet pair.key poolId).Calls StoreOp.Reads := Program.Calls.perform trivial
  refine Discipline.Outline.ite (fun _ => ?_) fun _ => searched _
  refine Discipline.Outline.bind ((protects.readsFreely.outline_reads reads
    protects.stable_account).learns told) fun found => ?_
  refine Discipline.Outline.given fun longer => ?_
  refine Discipline.Outline.ite (fun inCache => ?_) fun _ => searched _
  refine Discipline.Outline.ite (fun _ => fun state _ account => keeps _ state account)
    fun _ => ?_
  refine Discipline.Outline.ite (fun _ => ?_) fun _ => searched _
  refine Discipline.Outline.bind protects.outline_insertEntry_free fun wait => ?_
  refine Discipline.Outline.ite (fun _ => ?_) fun free => ?_
  · refine Discipline.Outline.bind (protects.outline_deleteLba.strengthen
      fun _ _ holds => holds.1) fun _ => searched _
  · refine (Discipline.Outline.given fun told => ?_).strengthen fun _ _ holds => holds
    obtain ⟨earlier, allowed, unlocked⟩ := told (Bool.eq_false_of_not_eq_true free)
    exact outline_kvPutPlace_remembered written valid (longer inCache) keeps fun code failed =>
      lost code failed _ earlier allowed unlocked

/-- A put keeps the account of its thread and releases what it took. -/
theorem outline_kvPut
    (lacks : ∀ code, kvAllocForWrite store.capabilities pair.key.length pair.value pair.valueLen
      allocation.buf = .error code → ∀ lba state,
        discipline.allowed thread (.checkEntry lba) state →
      state.safeLbaList lba = none → lba = 0) :
    discipline.Outline (answer store) thread (kvPut store poolId pair allocation)
      (Account thread []) fun _ => Account thread [] := by
  have body := protects.outline_kvPutBody written knows (fun _ _ held => held)
    fun code failed lba earlier allowed free state account => by
      rw [lacks code failed lba earlier allowed free] at account
      exact account
  refine Discipline.Outline.bind body fun ends => ?_
  obtain ⟨retCode, keyHashVal, insertLba⟩ := ends
  refine Discipline.Outline.ite (fun held => ?_) fun free => ?_
  · obtain rfl : insertLba = true := held
    exact Discipline.Outline.bind protects.outline_deleteLba fun _ _ _ account => account
  · obtain rfl : insertLba = false := Bool.eq_false_of_not_eq_true free
    exact fun _ _ account => account

end ProtectsSafeList

/-- What a thread knows that searched its key again while it held an address. -/
def FoundAgain (thread : ι) (known : Nat → StoreState ι → Prop) (lba : Nat)
    (read : Except NvmErrorCode MediaRead) (state : StoreState ι) : Prop :=
  match read with
  | .error _ => Account thread [lba] state
  | .ok read => Account thread [read.keyHash] state ∧ known read.keyHash state

/-- The vectors of a batch are those with which a delete goes on at what remains of the sectors
of the pair at an address. -/
def TrimsPair (store : NvmKvStore) (lba : Nat) (vectors : List NvmIovec) : Prop :=
  ∃ remaining totalIovs,
    totalIovs * (store.capabilities.maxTrimSize / store.sectorSize) + remaining =
      store.delSecCount ∧
    vectors = (deleteBatch store.capabilities lba store.capabilities.nvmMaxNumIovs
      (remaining * store.sectorSize) totalIovs).1

/-- The vectors of a batch trim sectors of one slot, whose pair is deleted. -/
structure TrimsSlot (store : NvmKvStore) (lba : Nat) (vectors : List NvmIovec) : Prop where
  pair : TrimsPair store lba vectors
  starts : ∀ vector ∈ vectors, store.InSlot lba vector.iovLba
  inside : ∀ vector ∈ vectors, ∀ l, Media.Covers store.sectorSize vector l → store.InSlot lba l
  trims : ∀ vector ∈ vectors, vector.iovOpcode = .trim

namespace ProtectsSafeList

variable {discipline : Discipline StoreOp (StoreState ι) ι}
  (protects : ProtectsSafeList store discipline) {thread : ι} {poolId : UInt32}
  {key : List UInt8} {allocated : Bool}
include protects

/-- The batches that trim a slot stay in it. Induction is on the bound of the rounds; what
remains always ends where the slot does. -/
theorem outline_deleteRangeLoop {keyHash : Nat} {assertion : StoreState ι → Prop}
    (trimmed : ∀ vectors : List NvmIovec, TrimsSlot store keyHash vectors →
      discipline.Outline (answer store) thread (nvmWritev vectors) assertion fun _ => assertion) :
    ∀ {fuel remaining totalIovs : Nat}, 0 < remaining →
      totalIovs * (store.capabilities.maxTrimSize / store.sectorSize) + remaining =
        2 ^ store.valueBits →
      discipline.Outline (answer store) thread
        (deleteRangeLoop store.capabilities keyHash fuel (remaining * store.sectorSize) totalIovs)
        assertion fun _ => assertion := by
  have bytes : ∀ sectors, sectors ≤ 2 ^ store.valueBits → sectors * store.sectorSize < 2 ^ 63 := by
    intro sectors few
    have slot := (@NvmKvStore.sector_value_bits store).1
    calc sectors * store.sectorSize ≤ 2 ^ store.valueBits * store.sectorSize :=
          Nat.mul_le_mul_right _ few
      _ = mKvMaxValueRange := by rw [Nat.mul_comm, slot]
      _ < 2 ^ 63 := by decide
  intro fuel
  induction fuel with
  | zero => exact fun _ _ => protects.outline_never
  | succ fuel inductionHypothesis =>
    intro remaining totalIovs more ends
    obtain ⟨vectors, done, rest, total, batch, split, _, continues, _⟩ :=
      deleteBatch_spec store.capabilities keyHash (fun _ => none)
        store.capabilities.nvmMaxNumIovs remaining totalIovs (bytes _ (by omega))
    change deleteBatch store.capabilities keyHash store.capabilities.nvmMaxNumIovs
      (remaining * store.sectorSize) totalIovs = _ at batch
    have listed : ∀ vector ∈ vectors, vector ∈ (deleteBatch store.capabilities keyHash
        store.capabilities.nvmMaxNumIovs (remaining * store.capabilities.nvmSectorSize)
        totalIovs).1 := by
      intro vector member
      rw [show store.capabilities.nvmSectorSize = store.sectorSize from rfl, batch]
      exact member
    have inside : TrimsSlot store keyHash vectors := by
      refine ⟨⟨remaining, totalIovs, ends.trans NvmKvStore.delSecCount_eq.symm, by rw [batch]⟩,
        fun vector member => ?_, fun vector member l covered => ?_,
        fun vector member => trims_deleteBatch (listed vector member)⟩
      · have starts := deleteBatch_inside store.capabilities more (listed vector member)
        change _ + totalIovs * (store.capabilities.maxTrimSize / store.sectorSize) ≤ _ ∧
          _ < _ + totalIovs * (store.capabilities.maxTrimSize / store.sectorSize) + _ at starts
        unfold NvmKvStore.InSlot
        omega
      · have range := deleteBatch_covers (bytes _ (by omega)) (listed vector member) covered
        change _ + totalIovs * (store.capabilities.maxTrimSize / store.sectorSize) ≤ _ ∧
          _ < _ + totalIovs * (store.capabilities.maxTrimSize / store.sectorSize) + _ at range
        unfold NvmKvStore.InSlot
        omega
    unfold deleteRangeLoop
    rw [batch]
    refine Discipline.Outline.bind (trimmed vectors inside) fun retCode => ?_
    cases retCode with
    | error code => exact fun _ _ holds => holds
    | ok done =>
      refine Discipline.Outline.ite (fun _ => fun _ _ holds => holds) fun left => ?_
      have some : 0 < rest := by
        by_contra none
        exact left (by rw [Nat.eq_zero_of_not_pos none, Nat.zero_mul])
      have next : total * (store.capabilities.maxTrimSize / store.sectorSize) =
        totalIovs * (store.capabilities.maxTrimSize / store.sectorSize) + _ := continues some
      exact inductionHypothesis some (by omega)

/-- The range of a slot is trimmed by batches that stay in it. -/
theorem outline_deleteRange {keyHash : Nat} {assertion : StoreState ι → Prop}
    (trimmed : ∀ vectors : List NvmIovec, TrimsSlot store keyHash vectors →
      discipline.Outline (answer store) thread (nvmWritev vectors) assertion fun _ => assertion) :
    discipline.Outline (answer store) thread
      (deleteRange store keyHash store.delSecCount allocated) assertion fun _ => assertion := by
  refine Discipline.Outline.ite (fun _ => ?_) fun _ => fun _ _ holds => holds
  have slot : store.delSecCount = 2 ^ store.valueBits := NvmKvStore.delSecCount_eq
  exact protects.outline_deleteRangeLoop trimmed (by rw [slot]; exact Nat.two_pow_pos _)
    (by rw [slot, Nat.zero_mul, Nat.zero_add])

section KnownDeletes

variable {known : Nat → StoreState ι → Prop}
  (found : ∀ buf, ∀ lba ∈ store.probes poolId key, ∀ state, discipline.invariant state →
    discipline.allowed thread
      (.readv [⟨poolBuffer buf, store.sectorSize, lba, .write⟩]) state →
    (∃ held, state.safeLbaList held = some thread) →
    holds store state.media poolId key lba = true →
      state.safeLbaList lba = some thread ∧ known lba state)
include found

/-- Searching a key again while its old address is held: the thread holds the address
found. Induction follows the addresses; only headers are read. -/
theorem outline_kvReadMediaProbes (accepted : kvValidateKey key = true) {lba : Nat}
    {probes : List Nat} (among : ∀ probe ∈ probes, probe ∈ store.probes poolId key)
    {buffers : ReadBuffers} (headers : buffers.numIovs = 1) :
    discipline.Outline (answer store) thread
      (kvReadMediaProbes store poolId key 0 false probes buffers) (Account thread [lba])
      (FoundAgain thread known lba) := by
  have short : key.length ≤ nvmKvMaxKeySize := (of_decide_eq_true accepted).2
  induction probes generalizing buffers with
  | nil => exact fun _ _ account => account
  | cons probe rest inductionHypothesis =>
    unfold kvReadMediaProbes
    refine Discipline.Outline.ite (fun exact => absurd exact.1 Bool.noConfusion) fun _ => ?_
    have vectors : readIovec store buffers probe =
        [⟨poolBuffer buffers.buf, store.sectorSize, probe, .write⟩] := by
      rw [readIovec, if_neg (by omega)]
    unfold kvReadMediaAt
    rw [vectors]
    have learned : ∀ state, discipline.invariant state → Account thread [lba] state →
        discipline.allowed thread
          (.readv [⟨poolBuffer buffers.buf, store.sectorSize, probe, .write⟩]) state →
        headerMatches (slotBuffer store state.media buffers.buf probe) poolId key = true →
        state.safeLbaList probe = some thread ∧ known probe state := by
      intro state invariant account allowed matched
      rw [headerMatches_slotBuffer store state.media _ probe poolId short] at matched
      exact found _ probe (among probe List.mem_cons_self) state invariant allowed
        ⟨lba, (account.2 lba).mpr List.mem_cons_self⟩ matched
    refine Discipline.Outline.bind (@ReadsFreely.outline_nvmReadv_sector _ _ _
      protects.readsFreely thread _ (fun region state => headerMatches region poolId key = true →
        state.safeLbaList probe = some thread ∧ known probe state) _ _ protects.stable_account
      learned) fun read => ?_
    cases read with
    | error code => exact fun _ _ account => account.1
    | ok result =>
      obtain ⟨readLen, regions⟩ := result
      refine Discipline.Outline.ite (fun matched => ?_) fun _ =>
        Discipline.Outline.strengthen (inductionHypothesis (fun other member =>
          among other (List.mem_cons_of_mem _ member)) headers) ?_
      · rintro state _ ⟨account, told⟩
        obtain ⟨region, rfl, tells⟩ := told readLen regions rfl
        obtain ⟨owned, fact⟩ := tells matched.2
        rw [FoundAgain, List.mem_singleton.mp ((account.2 probe).mp owned)]
        exact ⟨account, List.mem_singleton.mp ((account.2 probe).mp owned) ▸ fact⟩
      · exact fun _ _ account => account.1

variable (trimmed : ∀ keyHash, discipline.Outline (answer store) thread
    (deleteRange store keyHash store.delSecCount allocated)
    (fun state => Account thread [keyHash] state ∧ known keyHash state)
    fun _ => Account thread [keyHash])
include trimmed

omit found in
/-- A delete that trims holds its address and knows what it is about, and releases it at the end. -/
theorem outline_kvDeleteTrim {keyHash : Nat} :
    discipline.Outline (answer store) thread (kvDeleteTrim store keyHash allocated)
      (fun state => Account thread [keyHash] state ∧ known keyHash state)
      fun _ => Account thread [] :=
  Discipline.Outline.bind (trimmed keyHash) fun _ =>
    Discipline.Outline.bind protects.outline_deleteLba fun _ _ _ account => account

/-- A delete releases the address at which it trimmed. -/
theorem outline_kvDeleteAt (accepted : kvValidateKey key = true) {keyHash : Nat}
    (inserted : discipline.Outline (answer store) thread (insertEntry keyHash) (Account thread [])
      fun wait state => Account thread [keyHash] state ∧ (wait = false → known keyHash state))
    {buf : Option Region} :
    discipline.Outline (answer store) thread
      (kvDeleteAt store poolId key keyHash buf allocated) (Account thread [])
      fun _ => Account thread [] := by
  have released : ∀ result : Except NvmErrorCode Unit, discipline.Outline (answer store) thread
      (do
        let _ ← deleteLbaFromSafeList keyHash
        pure result) (Account thread [keyHash]) fun _ => Account thread [] := fun _ =>
    Discipline.Outline.bind protects.outline_deleteLba fun _ _ _ account => account
  refine Discipline.Outline.bind inserted fun wait => ?_
  cases wait with
  | false =>
    exact Discipline.Outline.strengthen (protects.outline_kvDeleteTrim trimmed)
      fun _ _ holds => ⟨holds.1, holds.2 rfl⟩
  | true =>
    cases buf with
    | none => exact Discipline.Outline.strengthen (released _) fun _ _ holds => holds.1
    | some buf =>
      refine Discipline.Outline.bind (Discipline.Outline.strengthen
        (protects.outline_kvReadMediaProbes found accepted (fun _ => id) rfl)
        fun _ _ holds => holds.1)
        fun read => ?_
      cases read with
      | error code => exact released _
      | ok read => exact protects.outline_kvDeleteTrim trimmed

end KnownDeletes

/-- A delete holds the address at which it trims, and releases what it took. -/
theorem outline_kvDelete (found : ∀ buf lba state, discipline.allowed thread
      (.readv [⟨poolBuffer buf, store.sectorSize, lba, .write⟩]) state →
    (∃ held, state.safeLbaList held = some thread) →
    holds store state.media poolId key lba = true → state.safeLbaList lba = some thread)
    (trimmed : ∀ keyHash, discipline.Outline (answer store) thread
      (deleteRange store keyHash store.delSecCount allocated) (Account thread [keyHash])
      fun _ => Account thread [keyHash])
    (forgets : discipline.Outline (answer store) thread (askCacheDelete key poolId)
      (Account thread []) fun _ => Account thread []) {buf : Option Region} :
    discipline.Outline (answer store) thread (kvDelete store poolId key buf allocated)
      (Account thread []) fun _ => Account thread [] := by
  refine Discipline.Outline.bind (protects.readsFreely.outline_reads (reads_kvValidatePoolId _)
    protects.stable_account) fun known => ?_
  refine Discipline.Outline.ite (fun _ => fun _ _ account => account) fun accepted => ?_
  have valid : kvValidateKey key = true := by
    simp only [Bool.or_eq_true, Bool.not_eq_true', not_or, Bool.not_eq_false] at accepted
    exact accepted.2
  have deletes : ∀ {lba : Nat} {buf : Option Region}, discipline.Outline (answer store) thread
      (kvDeleteAt store poolId key lba buf allocated) (Account thread [])
      fun _ => Account thread [] :=
    protects.outline_kvDeleteAt (fun buf lba _ state _ allowed holding held =>
        ⟨found buf lba state allowed holding held, trivial⟩)
      (fun keyHash => (trimmed keyHash).strengthen fun _ _ holds => holds.1) valid
      (protects.outline_insertEntry.weaken fun _ _ _ account => ⟨account, fun _ => trivial⟩)
  have searched : discipline.Outline (answer store) thread
      (kvDeleteSearch store poolId key buf allocated) (Account thread [])
      fun _ => Account thread [] := by
    cases buf with
    | none => exact fun _ _ account => account
    | some buf =>
      refine Discipline.Outline.bind (protects.readsFreely.outline_reads
        (reads_kvReadMedia _ _ _ _ _ _) protects.stable_account) fun read => ?_
      cases read with
      | error code => exact fun _ _ account => account
      | ok read => exact deletes
  refine Discipline.Outline.ite (fun _ => ?_) fun _ => searched
  refine Discipline.Outline.bind forgets fun entry => ?_
  cases entry with
  | none => exact searched
  | some entry => exact deletes

end ProtectsSafeList

end Nvmkv
