import Nvmkv.PutLocks
import Nvmkv.SequentialRuns

/-!
# Calls that nobody disturbs

The conditions on interleavings speak about what comes between the steps of a call: whether an
address that it takes is still what it found. A call that runs from its start to its end
while nobody else holds an address meets them by itself, because it takes the address in the
state in which it looked at it. So these conditions exclude no run in which the calls follow
one another, and the runs of single calls are the steps of runs that meet them.

A call that changes the media comes to hand over a batch, which is where most statements about
interleavings look at it.
-/

namespace Nvmkv

variable {ι : Type} {store : NvmKvStore} {thread : ι}

/-- Only a batch changes the media. -/
theorem answer_keeps_media {op : StoreOp} (besides : ∀ iovec, op ≠ .batchAtomic iovec)
    {state after : StoreState ι} {answered : StoreRes op}
    (reply : answer store thread op state = some (answered, after)) :
    after.media = state.media := by
  cases op with
  | batchAtomic iovec => exact absurd rfl (besides iovec)
  | checkEntry lba =>
    rw [answer] at reply
    split_ifs at reply <;> obtain ⟨_, rfl⟩ := Prod.mk.inj (Option.some.inj reply) <;> rfl
  | awaitEntry lba =>
    rw [answer] at reply
    split_ifs at reply
    obtain ⟨_, rfl⟩ := Prod.mk.inj (Option.some.inj reply)
    rfl
  | never => cases reply
  | _ =>
    obtain ⟨_, rfl⟩ := Prod.mk.inj (Option.some.inj reply)
    rfl

/-- A run that changes the media comes to hand over a batch, until which the media stay the same.
Induction follows the calls up to the first batch. -/
theorem exists_batch {α : Type} {program : StoreM α} {state after : StoreState ι} {result : α}
    (ran : program.run (answer store thread) state = some (result, after))
    (changed : after.media ≠ state.media) :
    ∃ iovec next before, Program.Moves (answer store thread) program state
        (.call (.batchAtomic iovec) next) before ∧ before.media = state.media := by
  induction program generalizing state with
  | done result =>
    cases ran
    exact absurd rfl changed
  | call op next inductionHypothesis =>
    by_cases batch : ∃ iovec, op = .batchAtomic iovec
    · obtain ⟨iovec, rfl⟩ := batch
      exact ⟨iovec, next, state, .still _ _, rfl⟩
    · rw [Program.run_call] at ran
      obtain ⟨⟨answered, between⟩, reply, further⟩ := Option.bind_eq_some_iff.mp ran
      have kept := answer_keeps_media (fun iovec same => batch ⟨iovec, same⟩) reply
      obtain ⟨iovec, rest, before, moves, same⟩ := inductionHypothesis answered further
        (fun same => changed (same.trans kept))
      exact ⟨iovec, rest, before, .answered reply moves, same.trans kept⟩

/-- What a search needs to be allowed in a state in which nobody holds an address: to read, and
to take an address that fits. -/
structure AllowsSearch (allowed : StoreOp → StoreState ι → Prop)
    (fits : Nat → StoreState ι → Prop) (state : StoreState ι) : Prop where
  idle : Idle state
  reads : ∀ {op}, op.Reads → allowed op state
  takes : ∀ {lba}, fits lba state → allowed (.checkEntry lba) state

section Searches

variable {allowed : StoreOp → StoreState ι → Prop} {fits : Nat → StoreState ι → Prop}
  {state : StoreState ι} {α : Type}

/-- What only reads is allowed while nothing is held. Induction follows the calls, which leave
the state alone. -/
theorem AllowsSearch.throughout_reads (search : AllowsSearch allowed fits state)
    {program : StoreM α} (reads : program.Calls StoreOp.Reads) :
    program.Throughout (answer store thread) allowed state := by
  induction program with
  | done result => trivial
  | call op next inductionHypothesis =>
    obtain ⟨here, further⟩ := reads
    refine ⟨search.reads here, ?_⟩
    intro answered reached reply
    obtain rfl := here.unchanged reply
    exact inductionHypothesis answered (further answered)

/-- An address that fits is taken at once when nobody holds it. -/
theorem AllowsSearch.throughout_insertEntry (search : AllowsSearch allowed fits state) {lba : Nat}
    (fit : fits lba state) : (insertEntry lba).Throughout (answer store thread) allowed state := by
  refine ⟨search.takes fit, ?_⟩
  intro answered reached reply
  simp only [answer, search.idle lba, Option.isNone_none, if_true, Option.some.injEq,
    Prod.mk.injEq] at reply
  obtain ⟨rfl, rfl⟩ := reply
  trivial

/-- Asking for an address that nobody holds takes it without waiting. -/
theorem insertEntry_once {lba : Nat} (idle : Idle state) {wait : Bool} {after : StoreState ι}
    (ran : (insertEntry lba).run (answer store thread) state = some (wait, after)) :
    wait = false := by
  rw [run_insertEntry_free store thread state (idle lba), Option.some.injEq, Prod.mk.injEq] at ran
  exact ran.1.symm

/-- What a put may take: an address without anything, or one that holds its key when the put
replaces it or the pair there has expired. -/
def FitsPut (store : NvmKvStore) (poolId : UInt32) (pair : NvmKvIovec) (lba : Nat)
    (state : StoreState ι) : Prop :=
  state.media lba = none ∨ holds store state.media poolId pair.key lba = true ∧
    (pair.replace = true ∨
      pairExpired store state.clock (storedHeader store state.media lba) = true)

variable {poolId : UInt32} {pair : NvmKvIovec}

/-- At an address that it does not hold a put asks for it when it holds the key and may be
written over. -/
theorem AllowsSearch.throughout_kvGenLbaRead
    (search : AllowsSearch allowed (FitsPut store poolId pair) state)
    (short : pair.key.length ≤ nvmKvMaxKeySize) {lba rounds : Nat} {buf : Region} :
    (kvGenLbaRead store poolId pair lba (rounds + 1) false buf).Throughout (answer store thread)
      allowed state := by
  have taken : ∀ ends : SlotRead, ∀ buf : Region, FitsPut store poolId pair lba state →
      (do
        let wait ← insertEntry lba
        if wait = true then kvGenLbaRead store poolId pair lba rounds true buf
        else pure ends : StoreM SlotRead).Throughout (answer store thread) allowed state := by
    intro ends buf fit
    refine .bind (search.throughout_insertEntry fit) fun wait reached ran => ?_
    rw [insertEntry_once search.idle ran]
    trivial
  unfold kvGenLbaRead
  refine .bind (search.throughout_reads (reads_nvmReadv _)) fun read reached ran => ?_
  rw [run_nvmReadv_sector, Option.some.injEq, Prod.mk.injEq] at ran
  obtain ⟨rfl, rfl⟩ := ran
  simp only [List.headD_cons, headerMatches_slotBuffer store state.media buf lba poolId short,
    readHeader_slotBuffer, Bool.false_eq_true, if_false]
  cases held : holds store state.media poolId pair.key lba with
  | false =>
    rw [if_neg Bool.false_ne_true]
    trivial
  | true =>
    rw [if_pos rfl]
    refine .bind (search.throughout_reads (reads_kvExpire_keep _ _)) fun code reached ran => ?_
    rw [run_kvExpire_keep, Option.some.injEq, Prod.mk.injEq] at ran
    obtain ⟨rfl, rfl⟩ := ran
    cases expired : pairExpired store state.clock (storedHeader store state.media lba) with
    | true => exact taken _ _ (.inr ⟨held, .inr expired⟩)
    | false =>
      cases replaces : pair.replace with
      | true => exact taken _ _ (.inr ⟨held, .inl replaces⟩)
      | false => trivial

/-- A search that nobody disturbs asks for an address that fits. Induction follows the
addresses. -/
theorem AllowsSearch.throughout_kvGenLbaProbes
    (search : AllowsSearch allowed (FitsPut store poolId pair) state)
    (short : pair.key.length ≤ nvmKvMaxKeySize) (lbas : List Nat) (buf : Region) :
    (kvGenLbaProbes store poolId pair lbas false buf).Throughout (answer store thread) allowed
      state := by
  induction lbas generalizing buf with
  | nil => trivial
  | cons lba rest inductionHypothesis =>
    unfold kvGenLbaProbes
    refine .bind (search.throughout_reads (reads_kvRangeExists _)) fun found reached ran => ?_
    rw [run_kvRangeExists, Option.some.injEq, Prod.mk.injEq] at ran
    obtain ⟨rfl, rfl⟩ := ran
    split
    · rename_i unmapped
      have free : windowFree store state.media lba = true := by
        by_contra mapped
        rw [if_neg fun empty => mapped (decide_eq_true empty)] at unmapped
        cases unmapped
      have none : state.media lba = none := windowFree_iff.mp free 0 (Nat.two_pow_pos _)
      refine .bind (search.throughout_insertEntry (.inl none)) fun wait reached ran => ?_
      rw [insertEntry_once search.idle ran]
      trivial
    · trivial
    · refine .bind (search.throughout_kvGenLbaRead short) fun read reached ran => ?_
      rw [run_kvGenLbaRead store thread state short (search.idle lba)] at ran
      cases held : holds store state.media poolId pair.key lba with
      | false =>
        simp only [held, Bool.false_eq_true, if_false, Option.some.injEq, Prod.mk.injEq] at ran
        obtain ⟨rfl, rfl⟩ := ran
        exact inductionHypothesis _
      | true =>
        simp only [held, if_true] at ran
        split_ifs at ran <;>
          (rw [Option.some.injEq, Prod.mk.injEq] at ran
           obtain ⟨rfl, rfl⟩ := ran
           trivial)

/-- A put that nobody disturbs and that finds nothing in the cache is allowed throughout when its
search is, what it writes after it, and the release of the address. -/
theorem AllowsSearch.throughout_kvPut
    (search : AllowsSearch allowed (FitsPut store poolId pair) state)
    (missed : (cacheAnswer store state poolId pair.key).1 = false) {allocation : Allocation}
    (writes : ∀ {layout buf placed context reached},
      kvAllocForWrite store.capabilities pair.key.length pair.value pair.valueLen allocation.buf =
        .ok (layout, buf) →
      (kvGenLba store poolId pair buf false none).run (answer store thread) state =
        some (placed, reached) →
      (kvPutWrite store poolId pair layout placed allocation.iovec context).Throughout
        (answer store thread) allowed reached)
    (releases : ∀ {lba reached}, allowed (.deleteEntry lba) reached) :
    (kvPut store poolId pair allocation).Throughout (answer store thread) allowed state := by
  have body : (kvPutBody store poolId pair allocation).Throughout (answer store thread) allowed
      state := by
    refine .bind (search.throughout_reads (reads_kvValidatePoolId _)) fun known reached ran => ?_
    rw [run_kvValidatePoolId, Option.some.injEq, Prod.mk.injEq] at ran
    obtain ⟨rfl, rfl⟩ := ran
    have placed : ∀ context, kvValidateKey pair.key = true →
        (kvPutPlace store poolId pair allocation context false).Throughout (answer store thread)
          allowed state := by
      intro context accepted
      unfold kvPutPlace
      split
      · trivial
      · rename_i layout buf allocated
        refine .bind (search.throughout_kvGenLbaProbes (of_decide_eq_true accepted).2 _ _)
          fun placed reached ran => ?_
        dsimp only
        cases placed.retCode with
        | error code => trivial
        | ok done => exact writes allocated ran
    split_ifs with rejected caching
    · trivial
    · simp only [Bool.or_eq_true, Bool.not_eq_true', not_or, Bool.not_eq_false] at rejected
      have asks : (askCacheGet pair.key poolId).Calls StoreOp.Reads := Program.Calls.perform trivial
      have told : (askCacheGet pair.key poolId).run (answer store thread) state =
          some (cacheAnswer store state poolId pair.key, state) := by
        rw [cacheAnswer, if_pos caching]
        rfl
      refine .bind (search.throughout_reads asks) fun found reached ran => ?_
      rw [told, Option.some.injEq, Prod.mk.injEq] at ran
      obtain ⟨rfl, rfl⟩ := ran
      obtain ⟨context, answered⟩ : ∃ context,
          cacheAnswer store state poolId pair.key = (false, context) :=
        ⟨_, Prod.ext missed rfl⟩
      rw [answered]
      exact placed context rejected.1.2
    · simp only [Bool.or_eq_true, Bool.not_eq_true', not_or, Bool.not_eq_false] at rejected
      exact placed _ rejected.1.2
  refine .bind body fun ends reached _ => ?_
  have release : (deleteLbaFromSafeList ends.keyHashVal).Throughout (answer store thread) allowed
      reached := .perform releases
  split_ifs
  · exact .bind release fun _ _ _ => trivial
  · trivial

/-- Without a cache it is allowed throughout when everything else than asking for an address
is. -/
theorem throughout_kvPut (uncached : store.cacheSize = 0) {allocation : Allocation}
    (besides : ∀ {op state}, (∀ lba, op ≠ .checkEntry lba) → allowed op state)
    (takes : ∀ {lba state}, FitsPut store poolId pair lba state → allowed (.checkEntry lba) state)
    (idle : Idle state) :
    (kvPut store poolId pair allocation).Throughout (answer store thread) allowed state := by
  have search : AllowsSearch allowed (FitsPut store poolId pair) state :=
    { idle := idle
      reads := fun reads => besides fun lba same => by rw [same] at reads; exact reads
      takes := takes }
  refine search.throughout_kvPut ?_ (fun _ _ => yields_kvPutWrite.calls.throughout
    (fun op _ unlisted => besides fun lba same => unlisted (by rw [same]; trivial)) _)
    (besides nofun)
  rw [cacheAnswer, uncached]
  rfl

end Searches

section Deletes

variable {allowed : StoreOp → StoreState ι → Prop} {state : StoreState ι} {poolId : UInt32}
  {key : List UInt8}

/-- A step that neither asks for an address nor reads. -/
def StoreOp.NeitherTakesNorReads : StoreOp → Prop
  | .checkEntry _ | .awaitEntry _ | .readv _ => False
  | _ => True

/-- Handing a batch over is such a step. -/
theorem StoreOp.Batches.neither {op : StoreOp} (batches : op.Batches) :
    op.NeitherTakesNorReads := by
  cases op with
  | batchAtomic iovec => trivial
  | never => trivial
  | _ => exact batches.elim

/-- A delete that nobody disturbs and that finds nothing in the cache is allowed throughout when
its search is, and everything that does not ask for an address or read. -/
theorem AllowsSearch.throughout_kvDelete
    (search : AllowsSearch allowed (fun lba state => holds store state.media poolId key lba = true)
      state)
    (missed : 0 < store.cacheSize →
      (askCacheDelete key poolId).run (answer store thread) state = some (none, state))
    {buf : Option Region} {allocated : Bool}
    (besides : ∀ {op state}, op.NeitherTakesNorReads → allowed op state) :
    (kvDelete store poolId key buf allocated).Throughout (answer store thread) allowed state := by
  refine .bind (search.throughout_reads (reads_kvValidatePoolId _)) fun known reached ran => ?_
  rw [run_kvValidatePoolId, Option.some.injEq, Prod.mk.injEq] at ran
  obtain ⟨rfl, rfl⟩ := ran
  split_ifs with rejected
  · trivial
  · simp only [Bool.or_eq_true, Bool.not_eq_true', not_or, Bool.not_eq_false] at rejected
    obtain ⟨some, short⟩ := of_decide_eq_true rejected.2
    have searched : (kvDeleteSearch store poolId key buf allocated).Throughout (answer store thread)
        allowed state := by
      unfold kvDeleteSearch
      cases buf with
      | none => trivial
      | some buf =>
        dsimp only
        refine .bind (search.throughout_reads (reads_kvReadMedia _ _ _ _ _ _))
          fun read reached ran => ?_
        obtain ⟨result, returned, found⟩ := run_kvReadMedia_header store thread state poolId buf
          some short
        rw [returned, Option.some.injEq, Prod.mk.injEq] at ran
        obtain ⟨rfl, rfl⟩ := ran
        cases lookup : lookupLba store state.media poolId key with
        | none =>
          rw [lookup] at found
          obtain rfl := found
          trivial
        | some lba =>
          rw [lookup] at found
          obtain ⟨read, rfl, rfl, -⟩ := found
          have held : holds store state.media poolId key read.keyHash = true :=
            List.find?_some lookup
          refine .bind (search.throughout_insertEntry held) fun wait reached ran => ?_
          rw [insertEntry_once search.idle ran]
          refine .bind (((batches_deleteRange _ _ _).mono fun _ =>
            StoreOp.Batches.neither).throughout
            (fun op state plain => besides plain) _) fun code reached _ => ?_
          exact .bind (.perform (besides trivial)) fun _ _ _ => trivial
    unfold kvDeleteSync
    split_ifs with caching
    · refine .bind (.perform (besides trivial)) fun entry reached ran => ?_
      rw [missed caching, Option.some.injEq, Prod.mk.injEq] at ran
      obtain ⟨rfl, rfl⟩ := ran
      exact searched
    · exact searched

/-- Without a cache it is allowed throughout when it may read as long as nothing is held, ask for
an address that holds its key, and do everything else. -/
theorem throughout_kvDelete (uncached : store.cacheSize = 0) {buf : Option Region}
    {allocated : Bool}
    (besides : ∀ {op state}, op.NeitherTakesNorReads → allowed op state)
    (reads : ∀ {iovec state}, Idle state → allowed (.readv iovec) state)
    (takes : ∀ {lba state}, holds store state.media poolId key lba = true →
      allowed (.checkEntry lba) state)
    (idle : Idle state) :
    (kvDelete store poolId key buf allocated).Throughout (answer store thread) allowed state := by
  have search : AllowsSearch allowed
      (fun lba state => holds store state.media poolId key lba = true) state :=
    { idle := idle
      takes := takes
      reads := by
        intro op reading
        cases op with
        | readv iovec => exact reads idle
        | checkEntry lba => exact reading.elim
        | awaitEntry lba => exact reading.elim
        | _ => exact besides trivial }
  exact search.throughout_kvDelete (fun caching => absurd uncached (Nat.ne_of_gt caching)) besides

end Deletes

end Nvmkv
