import Nvmkv.ReadPath
import Nvmkv.WritePath

/-!
# What reads only

Most calls of an operation read: they ask the device, the cache, the clock or the
pool bits and change nothing. The parts of the operations that make no other calls
are listed here, so that a property of the shared state has to be shown only for
the calls around them.
-/

namespace Nvmkv

/-- The calls that leave the shared state alone. -/
def StoreOp.Reads : StoreOp → Prop
  | .rangeExists _ | .readv _ | .time | .checkPoolStatus _ | .cacheGet _ _ | .never => True
  | _ => False

variable {ι : Type} {store : NvmKvStore} {thread : ι}

/-- A reading call changes nothing. -/
theorem StoreOp.Reads.unchanged {op : StoreOp} (reads : op.Reads) {state after : StoreState ι}
    {answered : StoreRes op} (reply : answer store thread op state = some (answered, after)) :
    after = state := by
  cases op with
  | rangeExists search => exact (Prod.mk.inj (Option.some.inj reply)).2.symm
  | readv iovec => exact (Prod.mk.inj (Option.some.inj reply)).2.symm
  | time => exact (Prod.mk.inj (Option.some.inj reply)).2.symm
  | checkPoolStatus poolId => exact (Prod.mk.inj (Option.some.inj reply)).2.symm
  | cacheGet key poolId => exact (Prod.mk.inj (Option.some.inj reply)).2.symm
  | never => exact nomatch reply
  | _ => exact reads.elim

section Parts

/-- A program that never returns only reads. -/
theorem reads_neverReturns {α : Type} : (neverReturns : StoreM α).Calls StoreOp.Reads :=
  ⟨trivial, fun absurd => nomatch absurd⟩

/-- A reading of the device changes nothing. -/
theorem reads_nvmReadv (iovec : List NvmIovec) :
    (nvmReadv store iovec).Calls StoreOp.Reads := by
  unfold nvmReadv
  split_ifs
  · trivial
  · trivial
  · refine Program.Calls.bind (Program.Calls.perform trivial) fun read => ?_
    cases read <;> trivial

/-- Nor does an existence check. -/
theorem reads_kvRangeExists (search : NvmBlockRange) :
    (kvRangeExists search).Calls StoreOp.Reads := by
  refine Program.Calls.bind (Program.Calls.perform trivial) fun found => ?_
  cases found <;> trivial

/-- The expiry check of the writing paths queues nothing. -/
theorem reads_kvExpire_keep (hdr : NvmKvHeader) (keyLoc : Nat) :
    (kvExpire store hdr keyLoc false).Calls StoreOp.Reads := by
  unfold kvExpire
  by_cases disabled : store.expiryMode = .disableExpiry
  · rw [if_pos disabled]
    trivial
  · rw [if_neg disabled]
    refine Program.Calls.bind (Program.Calls.perform trivial) fun curTime => ?_
    simp only [Bool.not_false, if_true]
    split_ifs <;> trivial

/-- Nor does the validation of a pool. -/
theorem reads_kvValidatePoolId (poolId : UInt32) :
    (kvValidatePoolId poolId).Calls StoreOp.Reads :=
  Program.Calls.bind (Program.Calls.perform trivial) fun _ => trivial

/-- A reading at one address only reads when the reading behind it does. -/
theorem reads_kvReadMediaAt {poolId : UInt32} {key : List UInt8} {lba : Nat}
    {buffers : ReadBuffers} {next : ReadBuffers → StoreM (Except NvmErrorCode MediaRead)}
    (further : ∀ buffers, (next buffers).Calls StoreOp.Reads) :
    (kvReadMediaAt store poolId key lba buffers next).Calls StoreOp.Reads := by
  refine Program.Calls.bind (reads_nvmReadv _) fun read => ?_
  cases read with
  | error code => trivial
  | ok regions =>
    dsimp only
    split_ifs
    · trivial
    · exact further _

/-- Induction is on the addresses of the key. -/
theorem reads_kvReadMediaProbes {poolId : UInt32} {key : List UInt8} {valueLen : Nat}
    {readExact : Bool} {lbas : List Nat} {buffers : ReadBuffers} :
    (kvReadMediaProbes store poolId key valueLen readExact lbas buffers).Calls StoreOp.Reads := by
  induction lbas generalizing buffers with
  | nil => trivial
  | cons lba rest inductionHypothesis =>
    unfold kvReadMediaProbes
    split_ifs
    · refine Program.Calls.bind (reads_kvRangeExists _) fun found => ?_
      split
      · exact reads_kvReadMediaAt fun _ => inductionHypothesis
      · exact inductionHypothesis
      · trivial
    · exact reads_kvReadMediaAt fun _ => inductionHypothesis

/-- So a reading of a key changes nothing. -/
theorem reads_kvReadMedia (poolId : UInt32) (key : List UInt8) (value : Memory) (valueLen : Nat)
    (buf : Region) (readExact : Bool) :
    (kvReadMedia store poolId key value valueLen buf readExact).Calls StoreOp.Reads :=
  reads_kvReadMediaProbes

/-- The vectors of a pair are made with nothing but the time. -/
theorem reads_kvProcessForWrite (poolId : UInt32) (pair : NvmKvIovec) (layout : WriteLayout)
    (buf : Region) (expiry keyHashVal : Nat) :
    (kvProcessForWrite store.capabilities poolId pair layout buf expiry keyHashVal).Calls
      StoreOp.Reads := by
  unfold kvProcessForWrite
  split_ifs
  · trivial
  · exact Program.Calls.bind (Program.Calls.perform trivial) fun _ => trivial

end Parts

end Nvmkv
