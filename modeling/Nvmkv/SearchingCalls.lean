import Nvmkv.ReadingCalls
import Nvmkv.StoreCalls
import Nvmkv.StoredPairs

/-!
# What searches only

Before a put writes and after it has remembered its address it only reads and works
on the safe list. The calls it makes meanwhile are listed here. A discipline that
does not mind them has to be shown only for the part of a put that prepares and
writes its vectors; the put as a whole is outlined from that part, over any machine
that answers the calls of the store.
-/

namespace Nvmkv

/-- The calls that work on the safe list. -/
def StoreOp.OnSafeList : StoreOp → Prop
  | .checkEntry _ | .awaitEntry _ | .deleteEntry _ => True
  | _ => False

/-- The calls that leave the shared state alone but for the safe list. -/
def StoreOp.Searches (op : StoreOp) : Prop := op.Reads ∨ op.OnSafeList

variable {ι : Type} {store : NvmKvStore} {thread : ι}

/-- A call on the safe list changes nothing but the list. -/
theorem StoreOp.OnSafeList.unchanged {op : StoreOp} (among : op.OnSafeList)
    {state after : StoreState ι} {answered : StoreRes op}
    (reply : answer store thread op state = some (answered, after)) :
    after = { state with safeLbaList := after.safeLbaList } := by
  cases op with
  | checkEntry lba =>
    rw [answer] at reply
    split_ifs at reply <;> obtain ⟨_, rfl⟩ := Prod.mk.inj (Option.some.inj reply) <;> rfl
  | awaitEntry lba =>
    rw [answer] at reply
    split_ifs at reply
    obtain ⟨_, rfl⟩ := Prod.mk.inj (Option.some.inj reply)
    rfl
  | deleteEntry lba =>
    obtain ⟨_, rfl⟩ := Prod.mk.inj (Option.some.inj reply)
    rfl
  | _ => exact among.elim

/-- A searching call changes nothing but the safe list. -/
theorem StoreOp.Searches.unchanged {op : StoreOp} (searches : op.Searches)
    {state after : StoreState ι} {answered : StoreRes op}
    (reply : answer store thread op state = some (answered, after)) :
    after = { state with safeLbaList := after.safeLbaList } := by
  rcases searches with reads | among
  · obtain rfl := reads.unchanged reply
    rfl
  · exact among.unchanged reply

/-- What reads also searches. -/
theorem Program.Calls.searches {α : Type} {program : StoreM α}
    (reads : program.Calls StoreOp.Reads) : program.Calls StoreOp.Searches :=
  reads.mono fun _ => Or.inl

section Parts

/-- Inserting an address is a call of a search. -/
theorem searches_insertEntry (lba : Nat) : (insertEntry lba).Calls StoreOp.Searches := by
  refine Program.Calls.bind (Program.Calls.perform (.inr trivial)) fun free => ?_
  cases free with
  | true => trivial
  | false => exact Program.Calls.bind (Program.Calls.perform (.inr trivial)) fun _ => trivial

/-- So are several of them. Induction follows the addresses. -/
theorem searches_insertEntries (lbas : List Nat) :
    (insertEntries lbas).Calls StoreOp.Searches := by
  induction lbas with
  | nil => trivial
  | cons lba rest inductionHypothesis =>
    exact Program.Calls.bind (searches_insertEntry lba) fun _ => inductionHypothesis

/-- So is the release of several. Induction follows the addresses. -/
theorem searches_deleteLbas (lbas : List Nat) : (deleteLbas lbas).Calls StoreOp.Searches := by
  induction lbas with
  | nil => trivial
  | cons lba rest inductionHypothesis =>
    exact Program.Calls.bind (Program.Calls.perform (.inr trivial)) fun _ => inductionHypothesis

variable {poolId : UInt32} {pair : NvmKvIovec} {lba : Nat}

/-- So is every round at an address: both places that take the address read again after waiting.
Induction is on the rounds. -/
theorem searches_kvGenLbaRead {rounds : Nat} {insertLba : Bool} {buf : Region} :
    (kvGenLbaRead store poolId pair lba rounds insertLba buf).Calls StoreOp.Searches := by
  induction rounds generalizing insertLba buf with
  | zero => exact reads_neverReturns.searches
  | succ rounds inductionHypothesis =>
    have taken : ∀ (ends : SlotRead) (buf : Region),
        (if insertLba = true then pure ends else do
          let wait ← insertEntry lba
          if wait = true then kvGenLbaRead store poolId pair lba rounds true buf
          else pure ends : StoreM SlotRead).Calls StoreOp.Searches := by
      intro ends buf
      cases insertLba with
      | true => trivial
      | false =>
        refine Program.Calls.bind (searches_insertEntry lba) fun wait => ?_
        cases wait with
        | true => exact inductionHypothesis
        | false => trivial
    unfold kvGenLbaRead
    refine Program.Calls.bind (reads_nvmReadv _).searches fun read => ?_
    cases read with
    | error code => trivial
    | ok read =>
      dsimp only
      split
      · refine Program.Calls.bind (reads_kvExpire_keep _ _).searches fun expired => ?_
        split
        · exact taken _ _
        · trivial
        · split
          · exact taken _ _
          · trivial
      · cases insertLba with
        | true => exact Program.Calls.bind (Program.Calls.perform (.inr trivial)) fun _ => trivial
        | false => trivial

/-- The search at one address makes such calls when the search behind it does. -/
theorem searches_kvGenLbaAt {insertLba : Bool} {buf : Region} {next : Region → StoreM GenLba}
    (further : ∀ buf, (next buf).Calls StoreOp.Searches) :
    (kvGenLbaAt store poolId pair lba insertLba buf next).Calls StoreOp.Searches := by
  refine Program.Calls.bind searches_kvGenLbaRead fun read => ?_
  split
  · trivial
  · trivial
  · exact further _

/-- Induction is on the addresses of the key. -/
theorem searches_kvGenLbaProbes {lbas : List Nat} {insertLba : Bool} {buf : Region} :
    (kvGenLbaProbes store poolId pair lbas insertLba buf).Calls StoreOp.Searches := by
  induction lbas generalizing insertLba buf with
  | nil => trivial
  | cons lba rest inductionHypothesis =>
    unfold kvGenLbaProbes
    refine Program.Calls.bind (reads_kvRangeExists _).searches fun found => ?_
    split
    · refine Program.Calls.bind (searches_insertEntry lba) fun wait => ?_
      cases wait with
      | true => exact searches_kvGenLbaAt fun _ => inductionHypothesis
      | false => trivial
    · trivial
    · exact searches_kvGenLbaAt fun _ => inductionHypothesis

/-- The calls that hand a batch to the device. -/
def StoreOp.Batches : StoreOp → Prop
  | .batchAtomic _ | .never => True
  | _ => False

/-- Handing vectors over is one batch. -/
theorem batches_nvmWritev (iovec : List NvmIovec) : (nvmWritev iovec).Calls StoreOp.Batches :=
  Program.Calls.bind (Program.Calls.perform trivial) fun _ => Program.Calls.ite trivial trivial

/-- Trimming a slot hands batches over and does nothing else. Induction follows the batches. -/
theorem batches_deleteRange (delLba discardSec : Nat) (allocated : Bool) :
    (deleteRange store delLba discardSec allocated).Calls StoreOp.Batches := by
  have along : ∀ fuel remaining totalIovs,
      (deleteRangeLoop store.capabilities delLba fuel remaining totalIovs).Calls
        StoreOp.Batches := by
    intro fuel
    induction fuel with
    | zero => exact fun _ _ => ⟨trivial, nofun⟩
    | succ fuel inductionHypothesis =>
      intro remaining totalIovs
      refine Program.Calls.bind (batches_nvmWritev _) fun written => ?_
      cases written with
      | error code => trivial
      | ok done => exact Program.Calls.ite trivial (inductionHypothesis _ _)
  exact Program.Calls.ite (along _ _ _) trivial

end Parts

/-- A put goes on from its place when the search was successful. -/
theorem Discipline.outline_putPlaced {σ : Type} {discipline : Discipline StoreOp σ ι}
    {handle : ι → Program.Handler StoreOp StoreRes σ} {held : σ → Prop} {poolId : UInt32}
    {pair : NvmKvIovec} {layout : WriteLayout} {memory : Option (Nat → NvmIovec)}
    {context : NvmKvCacheContext} {placed : GenLba}
    (written : placed.retCode = .ok () → discipline.Outline handle thread
      (kvPutWrite store poolId pair layout placed memory context) held fun _ => held) :
    discipline.Outline handle thread
      (match placed.retCode with
      | .error code => pure ⟨.error code, placed.keyHashVal, placed.insertLba⟩
      | .ok () => kvPutWrite store poolId pair layout placed memory context) held
      fun _ => held := by
  cases found : placed.retCode with
  | error code => exact fun _ _ holds => holds
  | ok done => exact written found

/-- A put is outlined from its writing part, when its searching calls do not matter and the
address that it writes to is one that the cache remembers for the key or that a search finds.
The key and the value were accepted and the layout is that of the pair when the part is
reached. -/
theorem Discipline.Ignores.outline_kvPut_at {σ : Type} {discipline : Discipline StoreOp σ ι}
    {handle : ι → Program.Handler StoreOp StoreRes σ} {held : σ → Prop} {poolId : UInt32}
    {pair : NvmKvIovec} {allocation : Allocation} {addressed : Nat → Prop}
    (ignores : discipline.Ignores handle thread StoreOp.Searches held)
    (remembered : kvValidateKey pair.key = true →
      discipline.Outline handle thread (askCacheGet pair.key poolId) held
        fun answered state => held state ∧
          (answered.1 = true → addressed answered.2.contextEntry.lba))
    (searched : ∀ buf, discipline.Outline handle thread
      (kvGenLba store poolId pair buf false none) held
        fun placed state => held state ∧ (placed.retCode = .ok () → addressed placed.keyHashVal))
    (written : ∀ (placed : GenLba) (context : NvmKvCacheContext),
      (kvValidateKey pair.key && kvValidateValue store false pair.valueLen) = true →
      addressed placed.keyHashVal →
      discipline.Outline handle thread
        (kvPutWrite store poolId pair
          (writeLayout store.capabilities pair.key.length pair.value pair.valueLen) placed
          allocation.iovec context) held fun _ => held) :
    discipline.Outline handle thread (kvPut store poolId pair allocation) held
      fun _ => held := by
  have reads : ∀ {α : Type} {program : StoreM α}, program.Calls StoreOp.Reads →
      discipline.Outline handle thread program held fun _ => held := fun calls =>
    ignores.outline calls.searches
  have body : discipline.Outline handle thread (kvPutBody store poolId pair allocation) held
      fun _ => held := by
    refine Outline.bind (reads (reads_kvValidatePoolId _)) fun known => ?_
    refine Outline.ite (fun _ => fun _ _ holds => holds) fun accepted => ?_
    have valid : (kvValidateKey pair.key && kvValidateValue store false pair.valueLen) = true := by
      simp only [Bool.or_eq_true, Bool.not_eq_true', not_or, Bool.not_eq_false] at accepted
      rw [accepted.1.2, accepted.2]
      rfl
    have placed : ∀ context known, (known = true → addressed context.contextEntry.lba) →
        discipline.Outline handle thread (kvPutPlace store poolId pair allocation context known)
          held fun _ => held := by
      intro context known remembers
      unfold kvPutPlace
      split
      · exact fun _ _ holds => holds
      · rename_i layout buf allocated
        obtain ⟨rfl, _⟩ := layout_of_alloc allocated
        refine Outline.ite (fun known => ?_) fun _ => ?_
        · have kept : discipline.Outline handle thread (pure (GenLba.mk (.ok ())
              (if pair.valueLen < context.contextEntry.valueLen then
                context.contextEntry.valueLen else 0) context.contextEntry.lba true buf)) held
              fun placed state => held state ∧ addressed placed.keyHashVal :=
            fun _ _ holds => ⟨holds, remembers known⟩
          refine Outline.bind kept fun placed => Outline.given fun here => ?_
          exact outline_putPlaced fun _ => written placed context valid here
        · refine Outline.bind (searched buf) fun placed => ?_
          refine Outline.given fun found => ?_
          exact outline_putPlaced fun succeeded => written placed context valid (found succeeded)
    refine Outline.ite (fun _ => ?_) fun _ => placed _ _ fun unknown => Bool.noConfusion unknown
    refine Outline.bind (remembered (Bool.and_eq_true _ _ ▸ valid).1) fun found => ?_
    refine Outline.given fun remembers => ?_
    refine Outline.ite (fun here => ?_) fun _ => placed _ _ fun unknown => Bool.noConfusion unknown
    refine Outline.ite (fun _ => fun _ _ holds => holds) fun _ => ?_
    refine Outline.ite (fun _ => ?_) fun _ => placed _ _ fun unknown => Bool.noConfusion unknown
    refine Outline.bind (ignores.outline (searches_insertEntry _)) fun wait => ?_
    refine Outline.ite (fun _ => ?_) fun _ => placed _ _ fun _ => remembers here
    refine Outline.bind (ignores.outline (Program.Calls.perform (.inr trivial))) fun _ => ?_
    exact placed _ _ fun unknown => Bool.noConfusion unknown
  refine Outline.bind body fun ends => ?_
  refine Outline.ite (fun _ => ?_) fun _ => fun _ _ holds => holds
  exact Outline.bind (ignores.outline (Program.Calls.perform (.inr trivial)))
    fun _ _ _ holds => holds

/-- The same of a put whose address does not matter. -/
theorem Discipline.Ignores.outline_kvPut {σ : Type} {discipline : Discipline StoreOp σ ι}
    {handle : ι → Program.Handler StoreOp StoreRes σ} {held : σ → Prop} {poolId : UInt32}
    {pair : NvmKvIovec} {allocation : Allocation}
    (ignores : discipline.Ignores handle thread StoreOp.Searches held)
    (written : ∀ (placed : GenLba) (context : NvmKvCacheContext),
      (kvValidateKey pair.key && kvValidateValue store false pair.valueLen) = true →
      discipline.Outline handle thread
        (kvPutWrite store poolId pair
          (writeLayout store.capabilities pair.key.length pair.value pair.valueLen) placed
          allocation.iovec context) held fun _ => held) :
    discipline.Outline handle thread (kvPut store poolId pair allocation) held
      fun _ => held := by
  refine @outline_kvPut_at _ _ _ _ _ _ _ _ _ _ (fun _ => True) ignores ?_ ?_
    fun placed context valid _ => written placed context valid
  · have asks : (askCacheGet pair.key poolId).Calls StoreOp.Searches :=
      Program.Calls.perform (.inl trivial)
    exact fun _ => (ignores.outline asks).weaken fun _ _ _ holds => ⟨holds, fun _ => trivial⟩
  · exact fun buf => (ignores.outline searches_kvGenLbaProbes).weaken
      fun _ _ _ holds => ⟨holds, fun _ => trivial⟩

end Nvmkv
