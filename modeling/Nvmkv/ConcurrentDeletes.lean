import Nvmkv.SafeListOwnership
import Nvmkv.SlotOutlines
import Nvmkv.UndisturbedCalls
import Nvmkv.UniqueKeys

/-!
# Deletes at the same time as puts

A delete finds its key on the media, takes the address and trims the slot. In the default pool
the addresses of keys start slots that do not overlap, so that what a delete trims is one
slot, and it holds the address while it trims. What it trims is its own as long as the address
then has its key or nothing.

This is known when the delete has waited, since it reads again, and must be asked of the moment
at which it takes the address without waiting: another delete may have removed the key and a
put may have placed another one there since. While the address is held, no other call writes
there, and the others can only unmap what is there.
-/

namespace Nvmkv

variable {ι : Type} {store : NvmKvStore} {calls : ι → StoreCall}

/-- A put or a delete of one pair of the default pool. -/
def StoreCall.InDefaultPool : StoreCall → Prop
  | .kvPut poolId _ _ => poolId = 0
  | .kvDelete poolId _ _ _ => poolId = 0
  | _ => False

/-- A probe address of some key of the default pool. -/
def DefaultAddress (store : NvmKvStore) (lba : Nat) : Prop :=
  ∃ key, kvValidateKey key = true ∧ lba ∈ store.probes 0 key

/-- A batch covers no sector of a slot of the default pool whose address holds another key. -/
def SparesOtherKeys (store : NvmKvStore) (key : List UInt8) (media : Media)
    (iovec : List NvmIovec) : Prop :=
  ∀ other, kvValidateKey other = true → other ≠ key → ∀ lba ∈ store.probes 0 other,
    holds store media 0 other lba = true → ∀ l, store.InSlot lba l →
      ∀ vector ∈ iovec, ¬Media.Covers store.sectorSize vector l

/-- A delete is about to unmap its own pair at most. -/
def StoreCall.SparesOthers (store : NvmKvStore) (state : StoreState ι) (op : StoreOp)
    (call : StoreCall) : Prop :=
  match op, call with
  | .batchAtomic iovec, .kvDelete _ key _ _ => SparesOtherKeys store key state.media iovec
  | _, _ => True

/-- An address that a delete takes without waiting is unmapped by then or still holds its key,
and one that it finds after waiting is the one that it holds. -/
def StoreCall.DeletesInTime (store : NvmKvStore) (thread : ι) (op : StoreOp)
    (state : StoreState ι) (call : StoreCall) : Prop :=
  match call with
  | .kvDelete poolId key _ _ =>
      match op with
      | .checkEntry lba => state.safeLbaList lba = none →
          state.media lba = none ∨ holds store state.media poolId key lba = true
      | _ => DeleteKeepsOwnership store thread poolId key state op
  | _ => True

/-- What calls on the default pool owe each other: at an address that is held nothing is
written by another call. -/
def deleting (store : NvmKvStore) (calls : ι → StoreCall) : Discipline StoreOp
    (StoreState ι) ι where
  invariant := fun _ => True
  rely := fun thread before after =>
    (∀ lba, after.safeLbaList lba = some thread ↔ before.safeLbaList lba = some thread) ∧
      ∀ lba, DefaultAddress store lba → before.safeLbaList lba = some thread →
        after.media lba = before.media lba ∨ after.media lba = none
  allowed := fun thread op state => (calls thread).DeletesInTime store thread op state
  checked := fun thread op state => (calls thread).SparesOthers store state op

/-- The safe list is protected by what deletes and puts owe each other. -/
theorem deleting_protects : ProtectsSafeList store (deleting store calls) where
  kept := fun relied => relied.1 _
  still := fun _ _ => ⟨fun _ => Iff.rfl, fun _ _ _ => Or.inl rfl⟩
  reads := by
    intro thread op state reads
    cases op with
    | batchAtomic iovec => exact reads.elim
    | _ => trivial
  asks := fun _ _ _ => ⟨trivial, trivial⟩
  takes := fun _ _ free => ⟨trivial, fun _ apart =>
    ⟨StoreState.hold_others free apart, fun _ _ _ => Or.inl rfl⟩⟩
  removes := fun _ own => ⟨trivial, trivial, fun _ apart =>
    ⟨StoreState.release_others own apart, fun _ _ _ => Or.inl rfl⟩⟩

variable {thread : ι} {lba other l : Nat} {key : List UInt8}

/-- The slots of the default pool do not overlap. -/
theorem DefaultAddress.apart (address : DefaultAddress store lba)
    (otherAddress : DefaultAddress store other) (inside : store.InSlot lba l)
    (otherInside : store.InSlot other l) : lba = other := by
  obtain ⟨first, firstValid, probed⟩ := address
  obtain ⟨second, secondValid, otherProbed⟩ := otherAddress
  have nonempty := List.length_pos_iff.mp (of_decide_eq_true firstValid).1
  have otherNonempty := List.length_pos_iff.mp (of_decide_eq_true secondValid).1
  obtain ⟨lower, upper⟩ := inside
  obtain ⟨otherLower, otherUpper⟩ := otherInside
  rcases Nat.le_total lba other with before | after
  · exact probes_apart nonempty otherNonempty probed otherProbed before (by omega)
  · exact (probes_apart otherNonempty nonempty otherProbed probed after (by omega)).symm

/-- A search on the media ends at an address of the key. Induction follows the addresses. -/
theorem returns_kvReadMedia (poolId : UInt32) (key : List UInt8) (value : Memory)
    (valueLen : Nat) (buf : Region) (readExact : Bool) :
    (kvReadMedia store poolId key value valueLen buf readExact).Returns fun result =>
      ∀ read, result = .ok read → read.keyHash ∈ store.probes poolId key := by
  have along : ∀ (lbas : List Nat) (buffers : ReadBuffers),
      (kvReadMediaProbes store poolId key valueLen readExact lbas buffers).Returns fun result =>
        ∀ read, result = .ok read → read.keyHash ∈ lbas := by
    intro lbas
    induction lbas with
    | nil => exact fun _ => nofun
    | cons lba rest inductionHypothesis =>
      intro buffers
      have reads : ∀ buffers, (kvReadMediaAt store poolId key lba buffers fun buffers =>
          kvReadMediaProbes store poolId key valueLen readExact rest buffers).Returns
          fun result => ∀ read, result = .ok read → read.keyHash ∈ lba :: rest := by
        intro buffers
        refine Program.Returns.bind fun read => ?_
        split
        · exact nofun
        · dsimp only
          split_ifs
          · rintro read ⟨⟩
            exact List.mem_cons_self
          · exact (inductionHypothesis _).mono fun result found read same =>
              List.mem_cons_of_mem _ (found read same)
      unfold kvReadMediaProbes
      split_ifs
      · refine Program.Returns.bind fun found => ?_
        split
        · exact reads _
        · exact (inductionHypothesis _).mono fun result found read same =>
            List.mem_cons_of_mem _ (found read same)
        · exact nofun
      · exact reads _
  exact along _ _

section Deletes

variable {buf : Option Region} {allocated : Bool}

/-- What a delete knows about the address that it holds. -/
def Deletable (store : NvmKvStore) (key : List UInt8) (lba : Nat) (state : StoreState ι) : Prop :=
  DefaultAddress store lba ∧
    (state.media lba = none ∨ holds store state.media 0 key lba = true)

/-- It stays so when what is there is unmapped. -/
theorem Deletable.stays {state after : StoreState ι} (valid : kvValidateKey key = true)
    (deletable : Deletable store key lba state)
    (kept : after.media lba = state.media lba ∨ after.media lba = none) :
    Deletable store key lba after := by
  refine ⟨deletable.1, ?_⟩
  rcases kept with same | none
  · rw [same, holds_congr (of_decide_eq_true valid).2 same]
    exact deletable.2
  · exact Or.inl none

/-- A pair that may be deleted stays so while its address is held. -/
theorem stable_deletable (valid : kvValidateKey key = true) :
    (deleting store calls).Stable thread
      fun state => Account thread [lba] state ∧ Deletable store key lba state := by
  rintro before after first second relied ⟨account, deletable⟩
  exact ⟨deleting_protects.stable_account before after first second relied account,
    deletable.stays valid
      (relied.2 lba deletable.1 ((account.2 lba).mpr List.mem_cons_self))⟩

/-- A delete knows that the pair at the address it holds may be deleted. -/
theorem knowsAddress (call : calls thread = .kvDelete 0 key buf allocated)
    (valid : kvValidateKey key = true) :
    KnowsAddress store (deleting store calls) thread 0 key (Deletable store key) where
  stable := stable_deletable valid
  taken := by
    intro lba state probed _ allowed free
    change (calls thread).DeletesInTime store thread (.checkEntry lba) state at allowed
    rw [call] at allowed
    exact ⟨⟨key, valid, probed⟩, allowed free⟩
  found := fun probed _ _ held => ⟨⟨key, valid, probed⟩, Or.inr held⟩

/-- The batches of a delete spare other keys and write at no address that is held. -/
theorem outline_deleteWritev (call : calls thread = .kvDelete 0 key buf allocated)
    (valid : kvValidateKey key = true) {vectors : List NvmIovec}
    (trims : TrimsSlot store lba vectors) :
    (deleting store calls).Outline (answer store) thread (nvmWritev vectors)
      (fun state => Account thread [lba] state ∧ Deletable store key lba state)
      fun _ state => Account thread [lba] state ∧ Deletable store key lba state := by
  have handed : (deleting store calls).Outline (answer store) thread
      (nvmBatchAtomicOperations vectors)
      (fun state => Account thread [lba] state ∧ Deletable store key lba state)
      fun _ state => Account thread [lba] state ∧ Deletable store key lba state := by
    refine Discipline.Outline.perform (stable_deletable valid) ?_
    rintro state _ ⟨account, deletable⟩
    have unmaps : ∀ address, state.media.applyBatch store.sectorSize vectors address =
        state.media address ∨ state.media.applyBatch store.sectorSize vectors address = none := by
      intro address
      by_cases covered : ∃ vector ∈ vectors, Media.Covers store.sectorSize vector address
      · exact Or.inr (Media.applyBatch_trims trims.trims covered)
      · refine Or.inl (Media.applyBatch_frame fun vector member covers => ?_)
        exact covered ⟨vector, member, covers⟩
    refine ⟨?_, ?_⟩
    · change (calls thread).SparesOthers store state (.batchAtomic vectors)
      rw [call]
      intro other otherValid different address probed held l inside vector member covers
      obtain rfl := deletable.1.apart ⟨other, otherValid, probed⟩
        (trims.inside vector member l covers) inside
      rcases deletable.2 with none | own
      · exact mapped_of_holds (of_decide_eq_true otherValid).1 held none
      · exact different (headerMatches_unique held own).2
    · intro answered reached _ reply
      obtain ⟨_, rfl⟩ := Prod.mk.inj (Option.some.inj reply)
      exact ⟨trivial, fun _ _ => ⟨fun _ => Iff.rfl, fun address _ _ => unmaps address⟩, account,
        deletable.stays valid (unmaps lba)⟩
  refine Discipline.Outline.bind handed fun done => ?_
  exact Discipline.Outline.ite (fun _ _ _ holds => holds) fun _ _ _ holds => holds

/-- A delete without a cache trims an address that it knows about. -/
theorem outline_kvDelete_known (uncached : store.cacheSize = 0)
    (call : calls thread = .kvDelete 0 key buf allocated) :
    (deleting store calls).Outline (answer store) thread (kvDelete store 0 key buf allocated)
      (Account thread []) fun _ => Account thread [] := by
  refine Discipline.Outline.bind (deleting_protects.readsFreely.outline_reads
    (reads_kvValidatePoolId _) deleting_protects.stable_account) fun known => ?_
  refine Discipline.Outline.ite (fun _ _ _ account => account) fun accepted => ?_
  have valid : kvValidateKey key = true := by
    simp only [Bool.or_eq_true, Bool.not_eq_true', not_or, Bool.not_eq_false] at accepted
    exact accepted.2
  refine Discipline.Outline.ite (fun caching => absurd caching (by omega)) fun _ => ?_
  cases given : buf with
  | none => exact fun _ _ account => account
  | some region =>
    refine Discipline.Outline.bind (deleting_protects.readsFreely.outline_reads_returns
      (reads_kvReadMedia _ _ _ _ _ _) (returns_kvReadMedia _ _ _ _ _ _)
      deleting_protects.stable_account) fun read => Discipline.Outline.given fun found => ?_
    cases read with
    | error code => exact fun _ _ account => account
    | ok read =>
      refine deleting_protects.outline_kvDeleteAt ?_ ?_ valid
        ((knowsAddress call valid).outline_insertEntry deleting_protects (found read rfl))
      · intro region lba probed state _ allowed holding held
        change (calls thread).DeletesInTime store thread (.readv _) state at allowed
        rw [call] at allowed
        exact ⟨allowed holding _ List.mem_cons_self held, ⟨key, valid, probed⟩, Or.inr held⟩
      · intro keyHash
        exact (deleting_protects.outline_deleteRange fun vectors trims =>
          outline_deleteWritev call valid trims).weaken fun _ _ _ holds => holds.1

end Deletes

section Puts

variable {pair : NvmKvIovec} {allocation : Allocation}

/-- A length that a put trims away: none, or that of a longer value. -/
def TrimmedLength (pair : NvmKvIovec) (trimLen : Nat) : Prop :=
  trimLen < 2 ^ 32 ∧ (trimLen = 0 ∨ pair.valueLen < trimLen)

/-- A put knows the length that it trims, and nothing else of its slot. -/
theorem knowsSlots_put : KnowsSlots store (deleting store calls) thread 0 pair
    (fun _ _ => True) fun _ => TrimmedLength pair where
  stable := fun before after first second relied holds =>
    ⟨deleting_protects.stable_account before after first second relied holds.1, trivial⟩
  taken := fun _ _ _ _ => trivial
  found := fun _ _ _ _ => trivial
  kept := ⟨Nat.two_pow_pos 32, Or.inl rfl⟩
  replaced := by
    intro lba state _ _ _
    unfold replacedLen
    split_ifs with longer
    · exact ⟨Region.word_lt _ _, Or.inr longer⟩
    · exact ⟨Nat.two_pow_pos 32, Or.inl rfl⟩

/-- The batch of a put writes within the slot of its address, and elsewhere it unmaps. Where it did
more, another call would hold the address of this put. -/
theorem outline_putWritev (call : calls thread = .kvPut 0 pair allocation)
    (valid : pair.Valid store) (filled : pair.Filled store) {trimLen clock : Nat} {buf : Region}
    {memory : Nat → NvmIovec} {trims : List NvmIovec}
    (probed : lba ∈ store.probes 0 pair.key) (length : TrimmedLength pair trimLen)
    (trimmed : kvProcessForTrim store.capabilities pair.valueLen trimLen lba = .ok trims) :
    (deleting store calls).Outline (answer store) thread
      (nvmWritev (handedIovec memory (trims ++ putIovec store 0 pair (pair.layout store) buf clock
        lba) (pair.layout store).iovCount)) (Account thread [lba]) fun _ =>
          Account thread [lba] := by
  obtain ⟨positive, bounded, _⟩ := of_decide_eq_true valid.2
  have handed : (deleting store calls).Outline (answer store) thread
      (nvmBatchAtomicOperations (handedIovec memory (trims ++ putIovec store 0 pair
        (pair.layout store) buf clock lba) (pair.layout store).iovCount)) (Account thread [lba])
      fun _ => Account thread [lba] := by
    refine Discipline.Outline.perform deleting_protects.stable_account ?_
    intro state _ account
    refine ⟨?_, ?_⟩
    · change (calls thread).SparesOthers store state (.batchAtomic _)
      rw [call]
      trivial
    · intro answered reached _ reply
      obtain ⟨_, rfl⟩ := Prod.mk.inj (Option.some.inj reply)
      refine ⟨trivial, fun other apart => ⟨fun _ => Iff.rfl, fun address default held => ?_⟩,
        account⟩
      rcases @put_sector store 0 pair (pair.layout store) buf memory trims clock lba trimLen
        state.media positive bounded length.1 length.2 trimmed filled address with
        same | ⟨_, none⟩ | ⟨inside, _⟩
      · exact Or.inl same
      · exact Or.inr none
      · exfalso
        have few := @sectorsWritten_le store (pair.layout store) _ bounded
        obtain rfl := DefaultAddress.apart ⟨pair.key, valid.1, probed⟩ default
          ⟨inside.1, inside.2.trans_le (Nat.add_le_add_left few lba)⟩
          ⟨le_rfl, Nat.lt_add_of_pos_right (Nat.two_pow_pos _)⟩
        rw [(account.2 lba).mpr List.mem_cons_self] at held
        exact apart (Option.some.inj held).symm
  refine Discipline.Outline.bind handed fun done => ?_
  exact Discipline.Outline.ite (fun _ _ _ account => account) fun _ _ _ account => account

/-- A put writes in the slot of the address that it holds. -/
theorem outline_kvPut_slot (uncached : store.cacheSize = 0)
    (call : calls thread = .kvPut 0 pair allocation) (filled : pair.Filled store) :
    (deleting store calls).Outline (answer store) thread (kvPut store 0 pair allocation)
      (Account thread []) fun _ => Account thread [] := by
  have writes : ∀ (layout : WriteLayout) (unused : Region) (placed : GenLba)
      (context : NvmKvCacheContext), pair.Valid store →
      kvAllocForWrite store.capabilities pair.key.length pair.value pair.valueLen allocation.buf =
        .ok (layout, unused) → placed.insertLba = true →
      placed.keyHashVal ∈ store.probes 0 pair.key → TrimmedLength pair placed.trimLen →
      (deleting store calls).Outline (answer store) thread
        (kvPutWrite store 0 pair layout placed allocation.iovec context)
        (fun state => Account thread [placed.keyHashVal] state ∧ True)
        (PutEnds thread fun _ => True) := by
    intro layout unused placed context valid allocated held probed length
    obtain ⟨rfl, _⟩ := layout_of_alloc allocated
    refine deleting_protects.outline_kvPutWrite uncached held
      (@knowsSlots_put _ _ _ thread pair).stable
      fun memory trims clock trimmed => ?_
    exact ((outline_putWritev call valid filled probed length trimmed).strengthen
      fun _ _ holds => holds.1).weaken fun _ _ _ account => ⟨account, fun _ => trivial⟩
  exact (deleting_protects.outline_kvPut_known (fun _ => knowsSlots_put) writes uncached
    (fun _ _ _ _ _ _ => trivial) fun _ _ _ => trivial).weaken fun _ _ _ holds => holds.1

end Puts

/-- The program of a put or a delete of one pair, with whether it succeeded. -/
def StoreCall.outcome (store : NvmKvStore) : StoreCall → StoreM (Except NvmErrorCode Unit)
  | .kvPut poolId pair allocation => do
      let result ← Nvmkv.kvPut store poolId pair allocation
      pure (result.map fun _ => ())
  | .kvDelete poolId key buf allocated => do
      let result ← Nvmkv.kvDelete store poolId key buf allocated
      pure (result.map fun _ => ())
  | call => do
      call.program store
      pure (.ok ())

/-- A configuration of such calls. -/
abbrev OutcomeConfig (ι : Type) :=
  Config StoreOp StoreRes (Except NvmErrorCode Unit) (StoreState ι) ι

/-- All calls are about to start. -/
def startOutcomes (store : NvmKvStore) (state : StoreState ι) (calls : ι → StoreCall) :
    OutcomeConfig ι :=
  ⟨state, fun thread => (calls thread).outcome store⟩

/-- A key of which a pair was stored at the start, or was put with success since. -/
def Acknowledged (store : NvmKvStore) (calls : ι → StoreCall) (start : StoreState ι)
    (config : OutcomeConfig ι) (key : List UInt8) : Prop :=
  (∃ lba ∈ store.probes 0 key, holds store start.media 0 key lba = true) ∨
    ∃ writer pair allocation, calls writer = .kvPut 0 pair allocation ∧ pair.key = key ∧
      config.threads writer = .done (.ok ())

/-- What a delete is about to unmap is in no slot whose address holds an acknowledged pair of
another key. -/
def DeletesOwnPairs (store : NvmKvStore) (calls : ι → StoreCall) (start : StoreState ι)
    (config : OutcomeConfig ι) : Prop :=
  ∀ thread key buf allocated iovec next, calls thread = .kvDelete 0 key buf allocated →
    config.threads thread = .call (.batchAtomic iovec) next →
    ∀ other, kvValidateKey other = true → other ≠ key →
      Acknowledged store calls start config other → ∀ lba ∈ store.probes 0 other,
        holds store config.shared.media 0 other lba = true → ∀ l, store.InSlot lba l →
          ∀ vector ∈ iovec, ¬Media.Covers store.sectorSize vector l

/-- In every interleaving of puts and deletes of the default pool whose deletes take addresses
in time, a delete unmaps nothing of an acknowledged pair of another key. -/
theorem deletes_own_pairs [DecidableEq ι] (store : NvmKvStore) (uncached : store.cacheSize = 0)
    (calls : ι → StoreCall) (pool : ∀ thread, (calls thread).InDefaultPool)
    (filled : ∀ thread, (calls thread).VectorsFilled store) (start : StoreState ι)
    (free : ∀ lba, start.safeLbaList lba = none) (config : OutcomeConfig ι)
    (reached : Config.Reachable (answer store)
      (fun thread op state => (calls thread).DeletesInTime store thread op state)
      (startOutcomes store start calls) config) :
    DeletesOwnPairs store calls start config := by
  have outlined : ∀ thread, (deleting store calls).Outline (answer store) thread
      ((calls thread).outcome store) (Account thread []) fun _ _ => True := by
    intro thread
    have own := pool thread
    have fills := filled thread
    cases call : calls thread with
    | kvPut poolId pair allocation =>
      rw [call] at own fills
      obtain rfl : poolId = 0 := own
      exact Discipline.Outline.bind (outline_kvPut_slot uncached call fills)
        fun _ _ _ _ => trivial
    | kvDelete poolId key buf allocated =>
      rw [call] at own
      obtain rfl : poolId = 0 := own
      exact Discipline.Outline.bind (outline_kvDelete_known uncached call)
        fun _ _ _ _ => trivial
    | kvBatchPut poolId kvIov allocation =>
      rw [call] at own
      exact own.elim
    | batchDeleteSync iovec deleteFromCache =>
      rw [call] at own
      exact own.elim
  have placed : ∀ thread, Discipline.Placed (deleting store calls) (answer store)
      (fun _ _ _ => True) (startOutcomes store start calls) thread := by
    intro thread
    refine ⟨Account thread [], ⟨List.nodup_nil, fun lba => ?_⟩, outlined thread⟩
    change start.safeLbaList lba = some thread ↔ _
    rw [free]
    simp
  intro thread key buf allocated iovec next call pending other valid different _
  have checked : (calls thread).SparesOthers store config.shared (.batchAtomic iovec) :=
    Discipline.sound_checked trivial placed (fun _ _ _ _ _ _ _ _ => trivial) reached pending
  rw [call] at checked
  exact checked other valid different

section Counterexample

/-- Two deletes of one key and a put of another key with the same first address. -/
def deletesAndPut (thread : Fin 3) : StoreCall :=
  if thread = 2 then .kvPut 0 (bytePair behindKey) plentyMemory
  else .kvDelete 0 frontKey (some fun _ => 0) true

/-- The header of a pair of the key that is deleted. -/
def frontHeader : Region := writeHeader (fun _ => 0) 0 frontKey 1 41 0 0

/-- The state in which it is stored. -/
def frontStored : StoreState (Fin 3) :=
  .opened (fun lba => if lba = frontLba then some frontHeader else none) (fun _ => false) 0

/-- The pair of the example is found at its first address. -/
theorem frontStored_lookup :
    lookupLba NvmKvStore.terabyteStore frontStored.media 0 frontKey = some frontLba := by
  refine lookupLba_first ?_
  have stored : frontStored.media frontLba = some frontHeader :=
    show (if frontLba = frontLba then some frontHeader else none) = _ from if_pos rfl
  change holds _ _ _ _ frontLba = true
  rw [holds_sector (by decide) stored, frontHeader,
    headerMatches_writeHeader _ _ _ _ _ _ _ _ _ (by decide)]
  rfl

/-- One delete has found the pair before the other one removes it and the put takes its place,
and trims the slot afterwards without reading again. -/
theorem acknowledged_pair_trimmed :
    ¬∀ (store : NvmKvStore) (calls : Fin 3 → StoreCall) (start : StoreState (Fin 3))
      (config : OutcomeConfig (Fin 3)), store.cacheSize = 0 →
      (∀ thread, (calls thread).InDefaultPool) → (∀ lba, start.safeLbaList lba = none) →
      Config.Reachable (answer store) (fun _ _ _ => True) (startOutcomes store start calls)
        config → DeletesOwnPairs store calls start config := by
  intro always
  obtain ⟨shares, _⟩ := behindKey_probes
  obtain ⟨result, ran, found⟩ := run_kvReadMedia_header NvmKvStore.terabyteStore (0 : Fin 3)
    frontStored 0 (fun _ => 0) (show 0 < frontKey.length by decide) (by decide)
  rw [frontStored_lookup] at found
  obtain ⟨read, rfl, address, _⟩ := found
  have searches : Program.Moves (answer NvmKvStore.terabyteStore (0 : Fin 3))
      (kvDelete NvmKvStore.terabyteStore 0 frontKey (some fun _ => 0) true) frontStored
      (kvDeleteAt NvmKvStore.terabyteStore 0 frontKey frontLba (some read.buf) true)
      frontStored := by
    refine .seq (run_kvValidatePoolId NvmKvStore.terabyteStore (0 : Fin 3) frontStored 0) ?_
    refine .seq ran ?_
    dsimp only
    rw [address]
    exact .still _ _
  obtain ⟨emptied, deleted, continues, trimmed⟩ := @delete_step (Fin 3) NvmKvStore.terabyteStore 1
    0 frontStored rfl (fun _ => rfl) frontKey rfl frontLba frontStored_lookup fun _ => 0
  have free : windowFree NvmKvStore.terabyteStore emptied.media frontLba = true := by
    rw [windowFree_iff, trimmed]
    intro i inside
    exact Media.trim_inside ⟨Nat.le_add_right _ _, Nat.add_lt_add_left inside _⟩
  have ends : searchEnd NvmKvStore.terabyteStore emptied.media 0 behindKey = some frontLba := by
    rw [← shares]
    exact searchEnd_first (by rw [shares]; exact free)
  obtain ⟨written, put, continuesToo, buf, media⟩ := @bytePair_run _ 0 behindKey 2 emptied
    frontLba continues.idle (continues.accepts rfl) ⟨_, rfl⟩ ends free
  have begun : Config.Reachable (answer NvmKvStore.terabyteStore) (fun _ _ _ => True)
      (startOutcomes NvmKvStore.terabyteStore frontStored deletesAndPut)
      (startOutcomes NvmKvStore.terabyteStore frontStored deletesAndPut) := .start
  have searched := begun.moves 0 rfl (searches.bind _)
  have removed := searched.moves 1 (Function.update_of_ne (by decide) _ _)
    (.seq deleted (.still _ _))
  have acknowledged := removed.moves 2 ((Function.update_of_ne (by decide) _ _).trans
    (Function.update_of_ne (by decide) _ _)) (.seq put (.still _ _))
  have unlocked : answer NvmKvStore.terabyteStore (0 : Fin 3) (.checkEntry frontLba) written =
      some (true, written.hold 0 frontLba) := by
    simp only [answer, continuesToo.idle frontLba]
    rfl
  have taken := acknowledged.advance 0 true (written.hold 0 frontLba)
    (((Function.update_of_ne (by decide) _ _).trans (Function.update_of_ne (by decide) _ _)).trans
      (Function.update_self _ _ _)) trivial unlocked
  have held : holds NvmKvStore.terabyteStore written.media 0 behindKey frontLba = true :=
    holds_written media (by decide) (by decide)
  have pool : ∀ thread, (deletesAndPut thread).InDefaultPool := by
    intro thread
    unfold deletesAndPut
    split_ifs <;> rfl
  have spared := always _ _ _ _ rfl pool (fun _ => rfl) taken 0 frontKey (some fun _ => 0) true _ _
    rfl rfl behindKey (by decide) (by decide)
    (Or.inr ⟨2, bytePair behindKey, plentyMemory, rfl, rfl, rfl⟩) frontLba
    (mem_probes.mpr ⟨0, by decide, shares⟩) held frontLba
    ⟨le_rfl, Nat.lt_add_of_pos_right (Nat.two_pow_pos _)⟩
  exact spared _ List.mem_cons_self ⟨by decide, by decide⟩

/-- A put or a delete that nobody disturbs meets the condition. -/
theorem deletesInTime_alone (uncached : store.cacheSize = 0) {thread : ι} {call : StoreCall}
    (pool : call.InDefaultPool) {state : StoreState ι} (idle : Idle state) :
    (call.outcome store).Throughout (answer store thread)
      (fun op state => call.DeletesInTime store thread op state) state := by
  cases call with
  | kvPut poolId pair allocation =>
    have anything : (kvPut store poolId pair allocation).Calls fun _ => True := .any fun _ =>
      trivial
    exact .bind (anything.throughout (fun _ _ _ => trivial) _) fun _ _ _ => trivial
  | kvDelete poolId key buf allocated =>
    refine .bind (throughout_kvDelete uncached ?_ ?_ ?_ idle) fun _ _ _ => trivial
    · intro op state plain
      cases op with
      | checkEntry lba => exact plain.elim
      | readv iovec => exact plain.elim
      | _ => trivial
    · rintro iovec state nothing ⟨lba, held⟩
      rw [nothing lba] at held
      cases held
    · exact fun held _ => .inr held
  | kvBatchPut poolId kvIov allocation => exact pool.elim
  | batchDeleteSync iovec deleteFromCache => exact pool.elim

/-- The put of the other key has been acknowledged at the next address, and the first delete,
which holds the first address, is about to trim the slot there. -/
theorem deletes_own_pairs_trimming : ∃ (config : OutcomeConfig (Fin 3)) (iovec : List NvmIovec)
    (next : StoreRes (.batchAtomic iovec) → StoreM (Except NvmErrorCode Unit)),
    config.threads 2 = .done (.ok ()) ∧ config.threads 0 = .call (.batchAtomic iovec) next ∧
      holds NvmKvStore.terabyteStore config.shared.media 0 behindKey behindLba = true ∧
      DeletesOwnPairs NvmKvStore.terabyteStore deletesAndPut frontStored config := by
  have pool : ∀ thread, (deletesAndPut thread).InDefaultPool := by
    intro thread
    unfold deletesAndPut
    split_ifs <;> rfl
  have filled : ∀ thread, (deletesAndPut thread).VectorsFilled NvmKvStore.terabyteStore := by
    intro thread
    unfold deletesAndPut
    split_ifs
    · change VectorsFilled NvmKvStore.terabyteStore.capabilities 3 ⟨0, fun _ => 1⟩ 1
      decide
    · trivial
  obtain ⟨shares, behind⟩ := behindKey_probes
  have blank : windowFree NvmKvStore.terabyteStore frontStored.media behindLba = true := by
    have apart := behindLba_apart
    have bits : NvmKvStore.terabyteStore.valueBits = 12 := by decide
    rw [windowFree_iff, bits]
    exact fun i inside => if_neg (by omega)
  have front := frontStored_lookup
  obtain ⟨written, put, continues, buf, media⟩ := @bytePair_run _ 0 behindKey 2 frontStored
    behindLba (fun _ => rfl) rfl ⟨_, rfl⟩
    (searchEnd_behind shares behind (by decide) (by decide) (List.find?_some front) blank) blank
  have kept : written.media frontLba = frontStored.media frontLba := by
    have apart := behindLba_apart
    rw [media, Function.update_of_ne (by omega)]
  have found : lookupLba NvmKvStore.terabyteStore written.media 0 frontKey = some frontLba :=
    lookupLba_first ((holds_congr (by decide) kept).trans (List.find?_some front))
  obtain ⟨after, deleted, _, trimmed⟩ := @delete_step (Fin 3) NvmKvStore.terabyteStore 0 0 written
    rfl continues.idle frontKey (continues.accepts rfl) frontLba found fun _ => 0
  have changed : after.media ≠ written.media := by
    intro same
    have mapped := mapped_of_holds (by decide) (List.find?_some found)
    rw [← same, trimmed] at mapped
    exact mapped (Media.trim_inside ⟨le_rfl, Nat.lt_add_of_pos_right (Nat.two_pow_pos _)⟩)
  obtain ⟨iovec, next, before, moves, still⟩ := exists_batch deleted changed
  have begun : Config.Reachable (answer NvmKvStore.terabyteStore)
      (fun thread op state => (deletesAndPut thread).DeletesInTime NvmKvStore.terabyteStore thread
        op state)
      (startOutcomes NvmKvStore.terabyteStore frontStored deletesAndPut)
      (startOutcomes NvmKvStore.terabyteStore frontStored deletesAndPut) := .start
  have acknowledged := begun.moves_throughout 2 rfl (deletesInTime_alone rfl (pool 2) fun _ => rfl)
    (.seq put (.still _ _))
  have reached := acknowledged.moves_throughout 0 (Function.update_of_ne (by decide) _ _)
    (deletesInTime_alone rfl (pool 0) continues.idle) (moves.bind _)
  refine ⟨_, iovec, _, rfl, rfl, ?_, deletes_own_pairs NvmKvStore.terabyteStore rfl deletesAndPut
    pool filled _ (fun _ => rfl) _ reached⟩
  have stored : holds NvmKvStore.terabyteStore written.media 0 behindKey behindLba = true :=
    holds_written media (by decide) (by decide)
  rw [← still] at stored
  exact stored

end Counterexample

end Nvmkv
