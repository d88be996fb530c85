import Nvmkv.LiftedPrograms
import Nvmkv.PoolDeletion
import Nvmkv.ReadingCalls

/-!
# Outlines of a scan

A scan of the deletion thread is outlined from four things that it does: it asks the device
for the next portion of ranges, looks at one range, trims the ranges that it has taken, and
waits where the code would not return. An assertion says what holds of the ranges taken for
the next batch, of the ranges of the portion that are still to be looked at and of what is
left to iterate over. What every such step does to the assertion gives what a scan does,
whatever its portions and batches are.

A scan that fails leaves a weaker assertion.
-/

namespace Nvmkv

variable {σ ι : Type}

/-- What holds at the end of a part that can fail. -/
def EndsWith {α : Type} (fails : σ → Prop) (holds : α → σ → Prop) :
    Except NvmErrorCode α → σ → Prop
  | .error _, state => fails state
  | .ok result, state => holds result state

namespace NvmKvStore

variable (store : NvmKvStore)

/-- The bits of an address that the iterator compares in a scan for a pool, or for all pools. -/
def scanMask (poolId : Option Nat) : Nat := if poolId = none then 0 else store.poolMask

/-- What it compares them with. -/
def scanPattern : Option Nat → Nat
  | some id => store.poolIdHash (UInt32.ofNat id)
  | none => 0

end NvmKvStore

/-- What the steps of a scan for a pool, or for all pools, do to an assertion on the ranges
taken, those still to be looked at, and what is left to iterate over. A portion that is not
full leaves nothing. -/
structure Scans (store : NvmKvStore) (discipline : Discipline SystemOp σ ι)
    (handle : ι → Program.Handler SystemOp SystemRes σ) (thread : ι) (poolId : Option Nat)
    (fails : σ → Prop)
    (scanned : List NvmBlockRange → List NvmBlockRange → NvmBlockRange → σ → Prop) : Prop where
  gives : ∀ {taken ranges left state}, scanned taken ranges left state → fails state
  never : ∀ {taken ranges left}, discipline.Outline handle thread
    (liftStore neverReturns : SystemM (Except NvmErrorCode Nat)) (scanned taken ranges left)
    fun _ _ => False
  listed : ∀ {taken search maxRanges}, 0 < maxRanges → discipline.Outline handle thread
    (nvmLogicalRanges search maxRanges (store.scanMask poolId) (store.scanPattern poolId))
    (scanned taken [] search) fun answered state =>
      fails state ∧ ∀ found left, answered = some (found, left) → scanned taken found left state ∧
        (found.length < maxRanges → scanned taken found ⟨left.startLba, 0⟩ state)
  checked : ∀ {taken range ranges left scan}, discipline.Outline handle thread
    (skipRange store poolId range scan) (scanned taken (range :: ranges) left)
    (EndsWith fails fun verdict state => verdict.2.iovec = scan.iovec ∧
      scanned (if verdict.1 = true then taken else taken ++ [range]) ranges left state)
  trimmed : ∀ {taken ranges left}, discipline.Outline handle thread
    (liftStore (nvmWritev (taken.map (poolRangeIovec store)))) (scanned taken ranges left)
    (EndsWith fails fun _ => scanned [] ranges left)

namespace Scans

variable {store : NvmKvStore} {discipline : Discipline SystemOp σ ι}
  {handle : ι → Program.Handler SystemOp SystemRes σ} {thread : ι} {poolId : Option Nat}
  {fails : σ → Prop}
  {scanned : List NvmBlockRange → List NvmBlockRange → NvmBlockRange → σ → Prop}

/-- The inner loop looks at every range of a portion. Induction follows the ranges. -/
theorem outline_deletePortion (scans : Scans store discipline handle thread poolId fails scanned)
    {ranges taken : List NvmBlockRange} {left : NvmBlockRange} {scan : ScanState}
    (vectors : scan.iovec = taken.map (poolRangeIovec store)) :
    discipline.Outline handle thread (deletePortion store poolId ranges scan)
      (scanned taken ranges left)
      (EndsWith fails fun after state => ∃ taken,
        after.iovec = taken.map (poolRangeIovec store) ∧ scanned taken [] left state) := by
  induction ranges generalizing taken scan with
  | nil => exact fun _ _ holds => ⟨taken, vectors, holds⟩
  | cons range rest inductionHypothesis =>
    unfold deletePortion
    refine Discipline.Outline.bind scans.checked fun verdict => ?_
    rcases verdict with code | ⟨skips, after⟩
    · exact fun _ _ failed => failed
    cases skips with
    | true =>
      refine Discipline.Outline.strengthen (Discipline.Outline.given
        fun same : after.iovec = scan.iovec => inductionHypothesis (same.trans vectors)) ?_
      rintro state _ ⟨same, holds⟩
      exact ⟨holds, same⟩
    | false =>
      refine Discipline.Outline.strengthen (@Discipline.Outline.given _ _ _ _ _ _ _ _ _
        (scanned (taken ++ [range]) rest left) _ (after.iovec = scan.iovec) fun same => ?_) ?_
      · have grown : after.iovec ++ [poolRangeIovec store range] =
            (taken ++ [range]).map (poolRangeIovec store) := by
          rw [same, vectors, List.map_append, List.map_singleton]
        refine Discipline.Outline.ite (fun _ => fun _ _ holds => scans.gives holds) fun _ => ?_
        refine Discipline.Outline.ite (fun _ => ?_) fun _ => inductionHypothesis grown
        rw [grown]
        refine Discipline.Outline.bind scans.trimmed fun trimmed => ?_
        cases trimmed with
        | error code => exact fun _ _ failed => failed
        | ok done => exact inductionHypothesis rfl
      · rintro state _ ⟨same, holds⟩
        exact ⟨holds, same⟩

/-- The outer loop asks for portions until one is not full. What is left then is nothing. -/
theorem outline_deletePoolLoop
    (scans : Scans store discipline handle thread poolId fails scanned)
    (iter : LogicalIterRanges) {fuel : Nat} {taken : List NvmBlockRange} {search : NvmBlockRange}
    {scan : ScanState} (vectors : scan.iovec = taken.map (poolRangeIovec store)) :
    discipline.Outline handle thread
      (deletePoolLoop store iter poolId (store.scanMask poolId) (store.scanPattern poolId) fuel
        search scan)
      (scanned taken [] search)
      (EndsWith fails fun _ state => ∃ front, scanned [] [] ⟨front, 0⟩ state) := by
  induction fuel generalizing taken search scan with
  | zero => exact scans.never.weaken fun _ _ _ impossible => impossible.elim
  | succ fuel inductionHypothesis =>
    unfold deletePoolLoop
    refine Discipline.Outline.bind (scans.listed iter.positive) fun answered => ?_
    rcases answered with - | ⟨found, left⟩
    · exact fun _ _ holds => holds.1
    by_cases last : found.length < iter.nvmMaxNumLogicalIterRanges
    · have looked := @outline_deletePortion _ _ _ _ _ _ _ _ _ scans found taken
        ⟨left.startLba, 0⟩ { scan with retCode := found.length } vectors
      refine Discipline.Outline.bind (looked.strengthen
        fun _ _ holds => (holds.2 found left rfl).2 last) fun result => ?_
      cases result with
      | error code => exact fun _ _ failed => failed
      | ok after =>
        refine Discipline.Outline.chosen fun taken => ?_
        refine Discipline.Outline.strengthen (Discipline.Outline.given fun same => ?_)
          fun _ _ holds => ⟨holds.2, holds.1⟩
        refine Discipline.Outline.ite (fun _ => ?_) fun full => absurd last full
        refine Discipline.Outline.ite (fun _ => ?_) fun empty => ?_
        · rw [same]
          refine Discipline.Outline.bind scans.trimmed fun trimmed => ?_
          cases trimmed with
          | error code => exact fun _ _ failed => failed
          | ok done => exact fun _ _ holds => ⟨left.startLba, holds⟩
        · have none : taken = [] := by
            rw [same, List.length_map, ne_eq, not_not] at empty
            exact List.length_eq_zero_iff.mp empty
          subst none
          exact fun _ _ holds => ⟨left.startLba, holds⟩
    · have looked := @outline_deletePortion _ _ _ _ _ _ _ _ _ scans found taken left
        { scan with retCode := found.length } vectors
      refine Discipline.Outline.bind (looked.strengthen
        fun _ _ holds => (holds.2 found left rfl).1) fun result => ?_
      cases result with
      | error code => exact fun _ _ failed => failed
      | ok after =>
        refine Discipline.Outline.chosen fun taken => ?_
        refine Discipline.Outline.strengthen (Discipline.Outline.given fun same => ?_)
          fun _ _ holds => ⟨holds.2, holds.1⟩
        exact Discipline.Outline.ite (fun short => absurd short last) fun _ =>
          inductionHypothesis same

/-- A scan of the data area. -/
theorem outline_deletePool (scans : Scans store discipline handle thread poolId fails scanned)
    (iter : LogicalIterRanges) (memory : Nat) :
    discipline.Outline handle thread (deletePool store iter poolId memory)
      (scanned [] [] store.usrData)
      (EndsWith fails fun _ state => ∃ front, scanned [] [] ⟨front, 0⟩ state) := by
  have looped := @outline_deletePoolLoop _ _ _ _ _ _ _ _ _ scans iter (store.usrData.length + 1)
    [] store.usrData ⟨0, memory, []⟩ rfl
  cases poolId with
  | none => exact looped
  | some id => exact looped

end Scans

end Nvmkv
