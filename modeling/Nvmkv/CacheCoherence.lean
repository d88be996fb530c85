import Nvmkv.BatchOwnership
import Nvmkv.RoundTrip
import Nvmkv.UndisturbedCalls

/-!
# The cache and the media

A put writes its pair and then remembers the address. A delete forgets the address
and then trims the pair. Both hold the address of the pair meanwhile, but the delete
takes it only after the cache has forgotten the key: a put of the key that comes to
its end in between is remembered, and its pair is trimmed all the same.

An entry of the cache is coherent when the header at its address is the entry's key.
The condition is about the states in which a call takes an address, finds its key and gives an
address back. What the batches do is proved: they stay in the slot of the address that their call
holds, and that of a put leaves its key there. While a call holds an address, the slots that
others hold are apart from its own, and the cache remembers nothing there but the pair of the put
itself. These are invariants of the runs that meet the condition.
-/

namespace Nvmkv

variable {ι : Type}

/-- Every entry of the cache is at an address that holds its key. -/
def CacheCoherent (store : NvmKvStore) (state : StoreState ι) : Prop :=
  ∀ slot, (state.cache slot).key ≠ [] →
    (state.cache slot).key.length ≤ nvmKvMaxKeySize ∧
      holds store state.media (state.cache slot).poolId (state.cache slot).key
        (state.cache slot).lba = true

/-- Two slots have no sector in common. -/
def NvmKvStore.SlotsApart (store : NvmKvStore) (lba other : Nat) : Prop :=
  ∀ l, store.InSlot lba l → ¬store.InSlot other l

/-- A value takes no more sectors than a slot has. -/
def NvmKvStore.FitsSlot (store : NvmKvStore) (valueLen : Nat) : Prop :=
  valueSectors store.capabilities valueLen ≤ 2 ^ store.valueBits

/-- A value of some length may be replaced by a put: it fits a slot, and what is handed over for
the pair has room for the trim of a longer value besides the first vector of the pair. -/
def NvmKvIovec.Replaces (store : NvmKvStore) (pair : NvmKvIovec) (valueLen : Nat) : Prop :=
  store.FitsSlot valueLen ∧
    (valueSectors store.capabilities pair.valueLen < valueSectors store.capabilities valueLen →
      1 < (pair.layout store).iovCount)

/-- A call puts the pair of a key of a pool. -/
def StoreCall.Puts (poolId : UInt32) (key : List UInt8) : StoreCall → Prop
  | .kvPut pool pair _ => pool = poolId ∧ pair.key = key
  | _ => False

/-- An address whose slot a call may have for itself: no other call holds an address with a
slot that overlaps it, and the cache remembers nothing there, unless it is at the address itself
the pair that this call puts. -/
structure FreeSlot (store : NvmKvStore) (thread : ι) (call : StoreCall) (state : StoreState ι)
    (lba : Nat) : Prop where
  apart : ∀ held other, state.safeLbaList held = some other → other ≠ thread →
    store.SlotsApart lba held
  remembered : ∀ slot, (state.cache slot).key ≠ [] → store.InSlot lba (state.cache slot).lba →
    (state.cache slot).lba = lba ∧ call.Puts (state.cache slot).poolId (state.cache slot).key

/-- The condition on the steps of a put. It takes an address only when it may have the slot. Where
it finds its key, on the media or in the cache, it may replace the value recorded there. Without
memory for the pair it gives back no address of another call. -/
def PutKeepsCache (store : NvmKvStore) (thread : ι) (poolId : UInt32) (pair : NvmKvIovec)
    (allocation : Allocation) (state : StoreState ι) : StoreOp → Prop
  | .checkEntry lba | .awaitEntry lba => state.safeLbaList lba = none →
      FreeSlot store thread (.kvPut poolId pair allocation) state lba
  | .readv iovec => ∀ vector ∈ iovec,
      holds store state.media poolId pair.key vector.iovLba = true →
        pair.Replaces store (storedHeader store state.media vector.iovLba).valueLen
  | .cacheGet key poolId => ∀ slot, (state.cache slot).key = key →
      (state.cache slot).poolId = poolId → pair.Replaces store (state.cache slot).valueLen
  | .deleteEntry lba => ∀ code, kvAllocForWrite store.capabilities pair.key.length pair.value
      pair.valueLen allocation.buf = .error code →
        ∀ other, other ≠ thread → state.safeLbaList lba ≠ some other
  | _ => True

/-- The condition on the steps of a call, which for a delete is this: it takes an address only when
the cache remembers nothing in the slot and no other call holds one that overlaps it, and while it
holds an address it finds its key at no other. -/
def StoreCall.KeepsCache (store : NvmKvStore) (thread : ι) (op : StoreOp) (state : StoreState ι)
    (call : StoreCall) : Prop :=
  match call with
  | .kvPut poolId pair allocation => PutKeepsCache store thread poolId pair allocation state op
  | .kvDelete poolId key _ _ =>
      DeleteKeepsOwnership store thread poolId key state op ∧
        ∀ lba, op = .checkEntry lba ∨ op = .awaitEntry lba → state.safeLbaList lba = none →
          FreeSlot store thread call state lba
  | _ => True

/-- A put or a delete of one pair. -/
def StoreCall.PutsOrDeletes : StoreCall → Prop
  | .kvPut _ _ _ | .kvDelete _ _ _ _ => True
  | _ => False

/-- A put announces a vector, and fills those that it announces. -/
def StoreCall.VectorsSent (store : NvmKvStore) : StoreCall → Prop
  | .kvPut _ pair _ => 0 < (pair.layout store).iovCount ∧ pair.Filled store
  | _ => True

/-- What holds between any two steps: the cache is coherent, the slots that different calls
hold are apart, and in the slot of a call that holds an address the cache remembers only the pair
of that call, at that address. -/
structure HoldsSlots (store : NvmKvStore) (calls : ι → StoreCall) (state : StoreState ι) :
    Prop where
  coherent : CacheCoherent store state
  apart : ∀ lba held thread other, state.safeLbaList lba = some thread →
    state.safeLbaList held = some other → other ≠ thread → store.SlotsApart lba held
  remembered : ∀ lba thread slot, state.safeLbaList lba = some thread →
    (state.cache slot).key ≠ [] → store.InSlot lba (state.cache slot).lba →
      (state.cache slot).lba = lba ∧
        (calls thread).Puts (state.cache slot).poolId (state.cache slot).key

/-- What threads owe each other with respect to the cache: the slots that a call holds do not
change. -/
def coherence (store : NvmKvStore) (calls : ι → StoreCall) :
    Discipline StoreOp (StoreState ι) ι where
  invariant := HoldsSlots store calls
  rely := fun thread before after => ∀ lba,
    (after.safeLbaList lba = some thread ↔ before.safeLbaList lba = some thread) ∧
      (before.safeLbaList lba = some thread → ∀ l, store.InSlot lba l →
        after.media l = before.media l)
  allowed := fun thread op state => (calls thread).KeepsCache store thread op state
  checked := fun _ _ _ => True

variable {store : NvmKvStore} {calls : ι → StoreCall} {thread : ι}

/-- An address is in its own slot. -/
theorem NvmKvStore.inSlot_self (store : NvmKvStore) (lba : Nat) : store.InSlot lba lba :=
  ⟨le_rfl, Nat.lt_add_of_pos_right (Nat.two_pow_pos _)⟩

/-- A length that fits a slot is one of 32 bits. -/
theorem NvmKvStore.FitsSlot.word {valueLen : Nat} (fits : store.FitsSlot valueLen) :
    valueLen < 2 ^ 32 := by
  have slot := (@NvmKvStore.sector_value_bits store).1
  have range : mKvMaxValueRange = 2097152 := rfl
  calc valueLen ≤ valueSectors store.capabilities valueLen * store.sectorSize :=
        (valueSectors_covers store.capabilities valueLen).1
    _ ≤ 2 ^ store.valueBits * store.sectorSize := Nat.mul_le_mul_right _ fits
    _ = mKvMaxValueRange := by rw [Nat.mul_comm, slot]
    _ < 2 ^ 32 := by rw [range]; norm_num

/-- A call is allowed to take an address when it may have the slot. -/
theorem StoreCall.KeepsCache.freeSlot {call : StoreCall} {state : StoreState ι} {lba : Nat}
    (kind : call.PutsOrDeletes)
    (allowed : call.KeepsCache store thread (.checkEntry lba) state ∨
      call.KeepsCache store thread (.awaitEntry lba) state)
    (free : state.safeLbaList lba = none) : FreeSlot store thread call state lba := by
  cases call with
  | kvPut poolId pair allocation =>
    exact allowed.elim (fun keeps => keeps free) fun keeps => keeps free
  | kvDelete poolId key buf allocated =>
    exact allowed.elim (fun keeps => keeps.2 lba (.inl rfl) free)
      fun keeps => keeps.2 lba (.inr rfl) free
  | kvBatchPut poolId kvIov allocation => exact kind.elim
  | batchDeleteSync iovec deleteFromCache => exact kind.elim

/-- What the cache and the media are does not matter to the addresses that are held. -/
theorem HoldsSlots.relist {state after : StoreState ι} (holding : HoldsSlots store calls state)
    (cache : after.cache = state.cache) (media : after.media = state.media)
    (fewer : ∀ lba thread, after.safeLbaList lba = some thread →
      state.safeLbaList lba = some thread) : HoldsSlots store calls after where
  coherent := by
    rw [CacheCoherent, cache, media]
    exact holding.coherent
  apart := fun lba held thread other mine others =>
    holding.apart lba held thread other (fewer _ _ mine) (fewer _ _ others)
  remembered := by
    rw [cache]
    exact fun lba thread slot mine => holding.remembered lba thread slot (fewer _ _ mine)

/-- The entries that a table has no longer do not matter. -/
theorem HoldsSlots.forget {state : StoreState ι} {cache : NvmKvCacheTable}
    (holding : HoldsSlots store calls state)
    (kept : ∀ slot, (cache slot).key ≠ [] → cache slot = state.cache slot) :
    HoldsSlots store calls { state with cache := cache } where
  coherent := by
    intro slot some
    have same := kept slot some
    dsimp only at some ⊢
    rw [same] at some ⊢
    exact holding.coherent slot some
  apart := holding.apart
  remembered := by
    intro lba holder slot theirs some inside
    have same := kept slot some
    dsimp only at some inside ⊢
    rw [same] at some inside ⊢
    exact holding.remembered lba holder slot theirs some inside

/-- Taking a free address whose slot the call may have keeps the invariant. -/
theorem HoldsSlots.hold {state : StoreState ι} {lba : Nat} (holding : HoldsSlots store calls state)
    (free : FreeSlot store thread (calls thread) state lba) :
    HoldsSlots store calls (state.hold thread lba) where
  coherent := holding.coherent
  apart := by
    intro one held holder other mine others different
    simp only [StoreState.hold, Function.update_apply] at mine others
    split_ifs at mine others with here there there
    · exact absurd ((Option.some.inj others).symm.trans (Option.some.inj mine)) different
    · obtain rfl := Option.some.inj mine
      rw [here]
      exact free.apart held other others different
    · obtain rfl := Option.some.inj others
      rw [there]
      exact fun l inside covered => free.apart one holder mine different.symm l covered inside
    · exact holding.apart one held holder other mine others different
  remembered := by
    intro one holder slot mine some inside
    simp only [StoreState.hold, Function.update_apply] at mine
    split_ifs at mine with here
    · obtain rfl := Option.some.inj mine
      rw [here] at inside ⊢
      exact free.remembered slot some inside
    · exact holding.remembered one holder slot mine some inside

/-- Addresses are taken and given back under the condition. -/
theorem coherence_protects (kinds : ∀ thread, (calls thread).PutsOrDeletes) :
    ProtectsSafeList store (coherence store calls) where
  kept := fun relied => (relied _).1
  still := fun _ _ _ => ⟨Iff.rfl, fun _ _ _ => rfl⟩
  reads := fun _ => trivial
  asks := fun _ _ _ => ⟨trivial, trivial⟩
  takes := by
    intro thread lba state holding allowed free
    refine ⟨holding.hold (StoreCall.KeepsCache.freeSlot (kinds thread) allowed free), ?_⟩
    exact fun other apart held => ⟨StoreState.hold_others free apart held, fun _ _ _ => rfl⟩
  removes := by
    intro thread lba state holding own
    refine ⟨trivial, holding.relist rfl rfl ?_, fun other apart held =>
      ⟨StoreState.release_others own apart held, fun _ _ _ => rfl⟩⟩
    intro held holder mine
    simp only [StoreState.release, Function.update_apply] at mine
    split_ifs at mine
    exact mine

/-- After the batch of a put its address holds the key: the first vector of the pair is handed
over, which is the one with the header. -/
theorem holds_after_put {poolId : UInt32} {pair : NvmKvIovec} {buf : Region}
    {memory : Nat → NvmIovec} {trims : List NvmIovec} {clock lba trimLen : Nat} (media : Media)
    (valid : pair.Valid store) (filled : pair.Filled store)
    (trimmed : kvProcessForTrim store.capabilities pair.valueLen trimLen lba = .ok trims)
    (room : trims.length < (pair.layout store).iovCount) :
    holds store (media.applyBatch store.sectorSize (handedIovec memory (trims ++ putIovec store
        poolId pair (pair.layout store) buf clock lba) (pair.layout store).iovCount))
      poolId pair.key lba = true := by
  have short : pair.key.length ≤ nvmKvMaxKeySize := (of_decide_eq_true valid.1).2
  obtain ⟨positive, bounded, _⟩ := of_decide_eq_true valid.2
  have enough : (pair.layout store).iovCount ≤
      (trims ++ putIovec store poolId pair (pair.layout store) buf clock lba).length := by
    have counted : _ ≤ _ := filled
    rw [List.length_append, putIovec, pairIovec_length]
    exact counted.trans (Nat.le_add_left _ _)
  have limit : (nvmKvMaxValueSize : Nat) = 1047552 := rfl
  rw [handedIovec_take memory _ enough]
  have covered : BatchCovers store ((trims ++ putIovec store poolId pair (pair.layout store) buf
      clock lba).take (pair.layout store).iovCount) lba := by
    obtain ⟨first, rest, split, _, _, covers⟩ := pairIovec_first store.capabilities
      (pair.layout store) (putHeader store poolId pair (pair.layout store) buf clock)
      pair.value pair.valueLen lba
    refine ⟨first, ?_, covers⟩
    obtain ⟨more, count⟩ := Nat.exists_eq_add_of_lt room
    rw [putIovec, split, List.take_append, count, Nat.add_assoc, Nat.add_sub_cancel_left]
    exact List.mem_append_right _ List.mem_cons_self
  obtain ⟨vector, taken, covers, content⟩ := @Media.applyBatch_covered _ _ _ media covered
  rcases List.mem_append.mp (List.mem_of_mem_take taken) with trim | write
  · have starts := (kvProcessForTrim_starts bounded trimmed trim).1
    have sectors := (valueSectors_covers store.capabilities pair.valueLen).1
    have behind : vector.iovLba ≤ lba := covers.1
    have none : valueSectors store.capabilities pair.valueLen = 0 := by omega
    rw [none, Nat.zero_mul] at sectors
    omega
  · obtain ⟨_, written⟩ := pairIovec_content _ _ pair.value (by omega) lba media write covers
    have stored : media.applyBatch store.sectorSize _ lba = some (firstSector store poolId pair
        (pair.layout store) buf clock) :=
      (content.trans written).trans (pairWritten_first _ _ _ _ _ _)
    rw [holds_sector short stored, headerMatches_firstSector short short]
    exact decide_eq_true ⟨rfl, rfl⟩

/-- A batch that stays in the slot of the one address that its call holds keeps what threads owe
each other, if it leaves at that address the key that the call puts. -/
theorem HoldsSlots.batch {state : StoreState ι} {media : Media} {log : List (ι × List NvmIovec)}
    {lba : Nat} (holding : HoldsSlots store calls state) (account : Account thread [lba] state)
    (inside : ∀ l, ¬store.InSlot lba l → media l = state.media l)
    (leaves : ∀ poolId key, key.length ≤ nvmKvMaxKeySize → (calls thread).Puts poolId key →
      holds store media poolId key lba = true) :
    (coherence store calls).invariant { state with media := media, log := log } ∧
      ∀ other, other ≠ thread → (coherence store calls).rely other state
        { state with media := media, log := log } := by
  have mine := (account.2 lba).mpr (List.mem_singleton_self _)
  refine ⟨⟨?_, holding.apart, holding.remembered⟩, ?_⟩
  · intro slot some
    obtain ⟨short, held⟩ := holding.coherent slot some
    refine ⟨short, ?_⟩
    by_cases here : store.InSlot lba (state.cache slot).lba
    · obtain ⟨same, puts⟩ := holding.remembered lba thread slot mine some here
      rw [same]
      exact leaves _ _ short puts
    · exact (holds_congr short (inside _ here)).trans held
  · refine fun other different held => ⟨Iff.rfl, fun others l covered => inside l fun here => ?_⟩
    exact holding.apart lba held thread other mine others different l here covered

/-- What a put knows of the length that it trims away. -/
def TrimsWithin (store : NvmKvStore) (pair : NvmKvIovec) (trimLen : Nat) : Prop :=
  pair.Replaces store trimLen ∧ (trimLen = 0 ∨ pair.valueLen < trimLen)

/-- Nothing is trimmed. -/
theorem TrimsWithin.none (store : NvmKvStore) (pair : NvmKvIovec) : TrimsWithin store pair 0 := by
  have empty : valueSectors store.capabilities 0 = 0 := by
    have sector := store.sector_positive
    have covers := (valueSectors_covers store.capabilities 0).2
    rw [Nat.zero_add] at covers
    exact Nat.eq_zero_of_not_pos fun some =>
      Nat.not_lt_of_le (Nat.le_mul_of_pos_left _ some) covers
  refine ⟨⟨?_, fun longer => absurd longer ?_⟩, .inl rfl⟩
  · rw [NvmKvStore.FitsSlot, empty]
    exact Nat.zero_le _
  · rw [empty]
    exact Nat.not_lt_zero _

/-- The trim of a put leaves room for the first vector of the pair. -/
theorem TrimsWithin.room {pair : NvmKvIovec} {trimLen lba : Nat} {vectors : List NvmIovec}
    (trims : TrimsWithin store pair trimLen) (valid : pair.Valid store)
    (announced : 0 < (pair.layout store).iovCount)
    (trimmed : kvProcessForTrim store.capabilities pair.valueLen trimLen lba = .ok vectors) :
    vectors.length < (pair.layout store).iovCount := by
  obtain ⟨positive, bounded, _⟩ := of_decide_eq_true valid.2
  rw [kvProcessForTrim_eq positive bounded trims.1.1.word trimmed trims.2]
  split_ifs with longer
  · exact trims.1.2 longer
  · exact announced

/-- What a put trims may be replaced: it found the length in a header or in the cache. -/
theorem coherent_knowsTrims {poolId : UInt32} {pair : NvmKvIovec} {allocation : Allocation}
    (call : calls thread = .kvPut poolId pair allocation) :
    KnowsTrims store (coherence store calls) thread poolId pair (TrimsWithin store pair) where
  none := .none store pair
  replaced := by
    intro buf lba state _ allowed held
    have keeps : (calls thread).KeepsCache store thread
      (.readv [⟨poolBuffer buf, store.sectorSize, lba, .write⟩]) state := allowed
    rw [call] at keeps
    have replaces := keeps _ (List.mem_singleton_self _) held
    unfold replacedLen
    split_ifs with longer
    · exact ⟨replaces, .inr longer⟩
    · exact .none store pair
  remembered := by
    intro state found after _ allowed reply
    have keeps : (calls thread).KeepsCache store thread (.cacheGet pair.key poolId) state := allowed
    rw [call] at keeps
    obtain ⟨_, ⟨slot, entry⟩, sameKey, samePool⟩ :=
      kvCacheGet_found (congrArg Prod.fst (Option.some.inj reply))
    split_ifs with longer
    · refine ⟨?_, .inr longer⟩
      rw [entry] at sameKey samePool ⊢
      exact keeps slot sameKey samePool
    · exact .none store pair

section Put

variable {poolId : UInt32} {pair : NvmKvIovec} {allocation : Allocation}
  (kinds : ∀ thread, (calls thread).PutsOrDeletes)
  (call : calls thread = .kvPut poolId pair allocation)
include kinds call

/-- The batch of a put stays in its slot and leaves the key at the address of the put. -/
theorem coherent_put_nvmWritev {lba : Nat} {iovec : List NvmIovec}
    (inside : ∀ (media : Media) l, ¬store.InSlot lba l →
      media.applyBatch store.sectorSize iovec l = media l)
    (after : ∀ media : Media,
      holds store (media.applyBatch store.sectorSize iovec) poolId pair.key lba = true) :
    (coherence store calls).Outline (answer store) thread (nvmWritev iovec)
      (Account thread [lba])
      fun _ state => Account thread [lba] state ∧
        holds store state.media poolId pair.key lba = true := by
  have handed : (coherence store calls).Outline (answer store) thread
      (nvmBatchAtomicOperations iovec) (Account thread [lba])
      fun _ state => Account thread [lba] state ∧
        holds store state.media poolId pair.key lba = true := by
    refine Discipline.Outline.perform (coherence_protects kinds).stable_account ?_
    intro state holding account
    refine ⟨trivial, ?_⟩
    intro answered reached _ reply
    obtain ⟨_, rfl⟩ := Prod.mk.inj (Option.some.inj reply)
    have kept := @HoldsSlots.batch _ store calls thread state _
      (state.log ++ [(thread, iovec)]) lba holding account (inside state.media) fun _ _ _ puts => by
        rw [call] at puts
        rw [← puts.1, ← puts.2]
        exact after state.media
    exact ⟨kept.1, kept.2, account, after state.media⟩
  exact Discipline.Outline.bind handed fun done =>
    Discipline.Outline.ite (fun _ => fun _ _ holds => holds) fun _ => fun _ _ holds => holds

/-- A put remembers the address that holds its key. -/
theorem coherent_askCachePut {absExpiry genCount lba : Nat} {context : NvmKvCacheContext}
    (short : pair.key.length ≤ nvmKvMaxKeySize) :
    (coherence store calls).Outline (answer store) thread
      (askCachePut pair.key poolId pair.valueLen absExpiry genCount lba context)
      (fun state => Account thread [lba] state ∧ holds store state.media poolId pair.key lba = true)
      fun _ => Account thread [lba] := by
  refine Discipline.Outline.perform ?_ ?_
  · rintro before after first second relied ⟨account, held⟩
    refine ⟨(coherence_protects kinds).stable_account before after first second relied account, ?_⟩
    have mine := (account.2 lba).mpr (List.mem_singleton_self _)
    rw [holds_congr short ((relied lba).2 mine lba (store.inSlot_self lba))]
    exact held
  · rintro state holding ⟨account, held⟩
    refine ⟨trivial, ?_⟩
    intro answered reached _ reply
    obtain ⟨_, rfl⟩ := Prod.mk.inj (Option.some.inj reply)
    have mine := (account.2 lba).mpr (List.mem_singleton_self _)
    obtain ⟨slot, entry, put, sameKey, samePool, _, address⟩ :=
      kvCachePut_entry (cacheAddrBits store.cacheSize) state.cache pair.key poolId pair.valueLen
        absExpiry genCount lba state.clock context
    refine ⟨⟨?_, holding.apart, ?_⟩, fun _ _ _ => ⟨Iff.rfl, fun _ _ _ => rfl⟩, account⟩
    · intro other some
      simp only [put] at some ⊢
      by_cases here : other = slot
      · subst here
        rw [Function.update_self] at some ⊢
        rw [sameKey, samePool]
        refine ⟨short, ?_⟩
        rcases address with given | ⟨kept, oldKey, oldPool⟩
        · rw [given]
          exact held
        · rw [sameKey, ← oldKey] at some
          have old := (holding.coherent other some).2
          rwa [oldKey, oldPool, ← kept] at old
      · rw [Function.update_of_ne here] at some ⊢
        exact holding.coherent other some
    · intro held holder other theirs some inside
      simp only [put] at some inside ⊢
      by_cases here : other = slot
      · subst here
        rw [Function.update_self] at some inside ⊢
        rw [sameKey, samePool]
        rcases address with given | ⟨kept, oldKey, oldPool⟩
        · rw [given] at inside ⊢
          by_cases own : holder = thread
          · subst own
            rw [List.mem_singleton.mp ((account.2 held).mp theirs), call]
            exact ⟨rfl, rfl, rfl⟩
          · exact absurd inside (holding.apart lba held thread holder mine theirs own lba
              (store.inSlot_self lba))
        · rw [sameKey, ← oldKey] at some
          rw [kept] at inside ⊢
          rw [← oldKey, ← oldPool]
          exact holding.remembered held holder other theirs some inside
      · rw [Function.update_of_ne here] at some inside ⊢
        exact holding.remembered held holder other theirs some inside

/-- A put writes its pair, and remembers it while it still holds the address. -/
theorem coherent_kvPutWrite {placed : GenLba} {memory : Option (Nat → NvmIovec)}
    {context : NvmKvCacheContext} (valid : pair.Valid store) (filled : pair.Filled store)
    (announced : 0 < (pair.layout store).iovCount) (held : placed.insertLba = true)
    (trims : TrimsWithin store pair placed.trimLen) :
    (coherence store calls).Outline (answer store) thread
      (kvPutWrite store poolId pair (pair.layout store) placed memory context)
      (Account thread [placed.keyHashVal]) (PutHeld thread) := by
  have short : pair.key.length ≤ nvmKvMaxKeySize := (of_decide_eq_true valid.1).2
  obtain ⟨positive, bounded, _⟩ := of_decide_eq_true valid.2
  have ends : ∀ (retCode : Except NvmErrorCode Unit) (state : StoreState ι),
      Account thread [placed.keyHashVal] state →
        PutHeld thread ⟨retCode, placed.keyHashVal, placed.insertLba⟩ state := by
    intro retCode state account
    rw [PutHeld, if_pos held]
    exact account
  unfold kvPutWrite
  cases memory with
  | none => exact fun state _ => ends _ state
  | some memory =>
    dsimp only
    split
    · exact fun state _ => ends _ state
    · rename_i vectors trimmed
      refine Discipline.Outline.bind ((coherence_protects kinds).readsFreely.outline_reads_returns
        (reads_kvProcessForWrite _ _ _ _ _ _) (returns_kvProcessForWrite _ _ _ _ _)
        (coherence_protects kinds).stable_account) fun prepared => ?_
      refine Discipline.Outline.given fun prepares => ?_
      obtain ⟨clock, rfl⟩ := prepares
      dsimp only
      have inside : ∀ (media : Media) l, ¬store.InSlot placed.keyHashVal l →
          media.applyBatch store.sectorSize (handedIovec memory (vectors ++ putIovec store poolId
            pair (pair.layout store) placed.buf clock placed.keyHashVal)
            (pair.layout store).iovCount) l = media l := by
        intro media l outside
        rcases @put_sector store poolId pair (pair.layout store) placed.buf memory vectors clock
          placed.keyHashVal placed.trimLen media positive bounded trims.1.1.word trims.2 trimmed
          filled l with same | ⟨behind, _⟩ | ⟨covered, _⟩
        · exact same
        · exact absurd ⟨(Nat.le_add_right _ _).trans behind.1,
            behind.2.trans_le (Nat.add_le_add_left trims.1.1 _)⟩ outside
        · have few := @sectorsWritten_le store (pair.layout store) _ bounded
          exact absurd ⟨covered.1, covered.2.trans_le (Nat.add_le_add_left few _)⟩ outside
      refine Discipline.Outline.bind (coherent_put_nvmWritev kinds call inside fun media =>
        holds_after_put media valid filled trimmed (trims.room valid announced trimmed))
        fun retCode => ?_
      cases retCode with
      | error code => exact fun state _ holds => ends _ state holds.1
      | ok done =>
        refine Discipline.Outline.ite (fun _ => ?_) fun _ => fun state _ holds =>
          ends _ state holds.1
        exact Discipline.Outline.bind (coherent_askCachePut kinds call short)
          fun _ => fun state _ => ends _ state

omit kinds in
/-- Without memory for the pair a put may give back an address that it does not hold. It takes
none from another call. -/
theorem coherent_release_lost {code : NvmErrorCode} {lba : Nat}
    (failed : kvAllocForWrite store.capabilities pair.key.length pair.value pair.valueLen
      allocation.buf = .error code) :
    (coherence store calls).Outline (answer store) thread (deleteLbaFromSafeList lba)
      (fun _ => True) fun _ _ => True := by
  refine Discipline.Outline.perform (fun _ _ _ _ _ _ => trivial) ?_
  intro state holding _
  refine ⟨trivial, ?_⟩
  intro answered reached allowed reply
  obtain ⟨_, rfl⟩ := Prod.mk.inj (Option.some.inj reply)
  have keeps : (calls thread).KeepsCache store thread (.deleteEntry lba) state := allowed
  rw [call] at keeps
  have others : ∀ held holder, holder ≠ thread →
      (Function.update state.safeLbaList lba none held = some holder ↔
        state.safeLbaList held = some holder) := by
    intro held holder apart
    by_cases here : held = lba
    · rw [here, Function.update_self]
      exact ⟨nofun, fun theirs => absurd theirs (keeps code failed holder apart)⟩
    · rw [Function.update_of_ne here]
  refine ⟨holding.relist rfl rfl ?_, fun other apart held =>
    ⟨others held other apart, fun _ _ _ => rfl⟩, trivial⟩
  intro held holder theirs
  change Function.update state.safeLbaList lba none held = some holder at theirs
  rw [Function.update_apply] at theirs
  split_ifs at theirs
  exact theirs

/-- A put keeps the cache coherent. Without memory for the pair it writes nothing, and what it
holds afterwards does not matter. -/
theorem coherent_kvPut (sends : (calls thread).VectorsSent store) :
    (coherence store calls).Outline (answer store) thread (kvPut store poolId pair allocation)
      (Account thread []) fun _ _ => True := by
  have protects := @coherence_protects _ store calls kinds
  rw [call] at sends
  have knows : kvValidateKey pair.key = true →
      KnowsTrims store (coherence store calls) thread poolId pair (TrimsWithin store pair) :=
    fun _ => coherent_knowsTrims call
  have written : ∀ (layout : WriteLayout) (unused : Region) (placed : GenLba)
      (context : NvmKvCacheContext), (kvValidateKey pair.key && kvValidateValue store false
        pair.valueLen) = true →
      kvAllocForWrite store.capabilities pair.key.length pair.value pair.valueLen
        allocation.buf = .ok (layout, unused) → placed.insertLba = true →
      TrimsWithin store pair placed.trimLen →
      (coherence store calls).Outline (answer store) thread
        (kvPutWrite store poolId pair layout placed allocation.iovec context)
        (Account thread [placed.keyHashVal]) (PutHeld thread) := by
    intro layout unused placed context accepted allocated held trims
    obtain ⟨rfl, _⟩ := layout_of_alloc allocated
    exact coherent_kvPutWrite kinds call (Bool.and_eq_true_iff.mp accepted) sends.2 sends.1 held
      trims
  cases alloc : kvAllocForWrite store.capabilities pair.key.length pair.value pair.valueLen
      allocation.buf with
  | ok allocated =>
    refine (protects.outline_kvPut written knows ?_).weaken fun _ _ _ _ => trivial
    intro code failed
    rw [alloc] at failed
    cases failed
  | error code =>
    refine Discipline.Outline.bind (protects.outline_kvPutBody written knows
      (fun _ _ _ => trivial) fun _ _ _ _ _ _ _ _ => trivial) fun body => ?_
    refine Discipline.Outline.ite (fun _ => ?_) fun _ => fun _ _ _ => trivial
    exact Discipline.Outline.bind (coherent_release_lost call alloc)
      fun _ => fun _ _ _ => trivial

end Put

/-- A delete trims in its slot, where the cache remembers nothing. -/
theorem coherent_delete_nvmWritev (kinds : ∀ thread, (calls thread).PutsOrDeletes)
    {poolId : UInt32} {key : List UInt8} {buf : Option Region} {allocated : Bool}
    (call : calls thread = .kvDelete poolId key buf allocated) {lba : Nat} {iovec : List NvmIovec}
    (inside : TrimsSlot store lba iovec) :
    (coherence store calls).Outline (answer store) thread (nvmWritev iovec)
      (Account thread [lba]) fun _ => Account thread [lba] := by
  have handed : (coherence store calls).Outline (answer store) thread
      (nvmBatchAtomicOperations iovec) (Account thread [lba]) fun _ => Account thread [lba] := by
    refine Discipline.Outline.perform (coherence_protects kinds).stable_account ?_
    intro state holding account
    refine ⟨trivial, ?_⟩
    intro answered reached _ reply
    obtain ⟨_, rfl⟩ := Prod.mk.inj (Option.some.inj reply)
    have kept := @HoldsSlots.batch _ store calls thread state
      (state.media.applyBatch store.sectorSize iovec) (state.log ++ [(thread, iovec)]) lba holding
      account (fun l outside => applyBatch_uncovered fun ⟨vector, member, covers⟩ =>
        outside (inside.inside vector member l covers)) fun _ _ _ puts => by
        rw [call] at puts
        exact puts.elim
    exact ⟨kept.1, kept.2, account⟩
  exact Discipline.Outline.bind handed fun done =>
    Discipline.Outline.ite (fun _ => fun _ _ account => account) fun _ => fun _ _ account => account

/-- Forgetting a key keeps the other entries. -/
theorem coherent_askCacheDelete (kinds : ∀ thread, (calls thread).PutsOrDeletes)
    {poolId : UInt32} {key : List UInt8} {lbas : List Nat} :
    (coherence store calls).Outline (answer store) thread (askCacheDelete key poolId)
      (Account thread lbas) fun _ => Account thread lbas := by
  refine Discipline.Outline.perform (coherence_protects kinds).stable_account ?_
  intro state holding account
  refine ⟨trivial, ?_⟩
  intro answered reached _ reply
  obtain ⟨_, rfl⟩ := Prod.mk.inj (Option.some.inj reply)
  refine ⟨holding.forget fun other some => ?_, fun _ _ _ => ⟨Iff.rfl, fun _ _ _ => rfl⟩, account⟩
  exact (kvCacheDelete_entry (cacheAddrBits store.cacheSize) state.cache key poolId
    other).resolve_right some

/-- A put or a delete keeps the cache coherent. -/
theorem coherent_call (kinds : ∀ thread, (calls thread).PutsOrDeletes)
    (sends : (calls thread).VectorsSent store) :
    (coherence store calls).Outline (answer store) thread ((calls thread).program store)
      (Account thread []) fun _ _ => True := by
  have protects := @coherence_protects _ store calls kinds
  cases call : calls thread with
  | kvPut poolId pair allocation =>
    exact Discipline.Outline.bind (coherent_kvPut kinds call sends) fun _ => fun _ _ _ => trivial
  | kvDelete poolId key buf allocated =>
    refine Discipline.Outline.bind (protects.outline_kvDelete ?_ ?_
      (coherent_askCacheDelete kinds)) fun _ => fun _ _ _ => trivial
    · intro region lba state allowed holding held
      have keeps : (calls thread).KeepsCache store thread
        (.readv [⟨poolBuffer region, store.sectorSize, lba, .write⟩]) state := allowed
      rw [call] at keeps
      exact keeps.1 holding _ (List.mem_singleton_self _) held
    · intro keyHash
      exact protects.outline_deleteRange fun vectors inside =>
        coherent_delete_nvmWritev kinds call inside
  | kvBatchPut poolId kvIov allocation =>
    have kind := kinds thread
    rw [call] at kind
    exact kind.elim
  | batchDeleteSync iovec deleteFromCache =>
    have kind := kinds thread
    rw [call] at kind
    exact kind.elim

/-- In every run of puts and deletes whose steps meet the condition, every entry of the cache is
at an address that holds its key. -/
theorem cache_coherence [DecidableEq ι] (store : NvmKvStore) (calls : ι → StoreCall)
    (kinds : ∀ thread, (calls thread).PutsOrDeletes)
    (sends : ∀ thread, (calls thread).VectorsSent store) {state : StoreState ι}
    (free : ∀ lba, state.safeLbaList lba = none) (coherent : CacheCoherent store state)
    {config : StoreConfig ι}
    (reached : Config.Reachable (answer store)
      (fun thread op state => (calls thread).KeepsCache store thread op state)
      (startCalls store state calls) config) :
    CacheCoherent store config.shared := by
  have placed : ∀ thread, Discipline.Placed (coherence store calls) (answer store)
      (fun _ _ _ => True) (startCalls store state calls) thread := by
    intro thread
    refine ⟨Account thread [], ⟨List.nodup_nil, fun lba => ?_⟩, coherent_call kinds (sends thread)⟩
    change state.safeLbaList lba = some thread ↔ _
    rw [free]
    exact ⟨nofun, nofun⟩
  have holding : HoldsSlots store calls state := by
    refine ⟨coherent, ?_, ?_⟩
    · intro lba held thread other mine
      rw [free] at mine
      cases mine
    · intro lba thread slot mine
      rw [free] at mine
      cases mine
  exact (@Discipline.sound _ _ _ _ _ (coherence store calls) _ _ _
    (startCalls store state calls) _ holding placed
    (fun _ _ _ _ _ _ _ _ => trivial) reached).1.coherent

/-- The first address of the key `a` in the default pool. -/
def keyLba : Nat := cachingTerabyte.probeLba 0 [97] 0

/-- The header of a pair of the key `a` with a value of one byte. -/
def keyHeader : Region := writeHeader (fun _ => 0) 0 [97] 1 41 0 0

/-- A pair is stored at the first address of its key and not cached. -/
def storedPair : StoreState Bool :=
  .opened (fun lba => if lba = keyLba then some keyHeader else none) (fun _ => false) 0

/-- A pair of that key with another value, which replaces what is there. -/
def keyPair : NvmKvIovec := ⟨[97], ⟨0, fun _ => 1⟩, 1, 0, 0, true⟩

/-- The memory that a put of the pair gets. -/
def keyAllocation : Allocation := ⟨⟨fun _ => 0, true⟩, some fun _ => sectorTrim 0⟩

/-- A put of the pair, and a delete of its key. -/
def replaceAndDelete (thread : Bool) : StoreCall :=
  if thread then .kvPut 0 keyPair keyAllocation else .kvDelete 0 [97] (some fun _ => 0) true

/-- The two calls of the example put and delete. -/
theorem replaceAndDelete_kinds (thread : Bool) : (replaceAndDelete thread).PutsOrDeletes := by
  cases thread <;> trivial

/-- The sector of the stored pair. -/
theorem storedPair_sector : storedPair.media keyLba = some keyHeader := by
  change (if keyLba = keyLba then some keyHeader else none) = some keyHeader
  exact if_pos rfl

/-- It holds the key. -/
theorem storedPair_holds : holds cachingTerabyte storedPair.media 0 [97] keyLba = true := by
  rw [holds_sector (by decide) storedPair_sector, keyHeader,
    headerMatches_writeHeader _ _ _ _ _ _ _ _ _ (by decide)]
  rfl

/-- Its address is the first one that the key tries. -/
theorem probes_keyLba : ∃ later, cachingTerabyte.probes 0 [97] = keyLba :: later :=
  ⟨_, rfl⟩

/-- So a lookup ends there. -/
theorem storedPair_lookup : lookupLba cachingTerabyte storedPair.media 0 [97] = some keyLba := by
  obtain ⟨later, addresses⟩ := probes_keyLba
  rw [lookupLba, addresses, List.find?_cons_of_pos storedPair_holds]

/-- The put of the key would go to the pair that is stored. -/
theorem storedPair_target :
    putTarget cachingTerabyte storedPair 0 keyPair = some (keyLba, 0) := by
  have mapped : windowFree cachingTerabyte storedPair.media keyLba = false := by
    rw [Bool.eq_false_iff]
    intro free
    have first := windowFree_iff.mp free 0 (Nat.two_pow_pos _)
    rw [Nat.add_zero, storedPair_sector] at first
    exact nomatch first
  have header : storedHeader cachingTerabyte storedPair.media keyLba = readHeader keyHeader :=
    storedHeader_sector storedPair_sector
  have length : replacedLen (readHeader keyHeader) 1 = 0 := by
    rw [keyHeader, readHeader_writeHeader]
    rfl
  obtain ⟨later, addresses⟩ := probes_keyLba
  have missed : (cacheAnswer cachingTerabyte storedPair 0 [97]).1 = false := rfl
  have live : ∀ hdr, pairExpired cachingTerabyte storedPair.clock hdr = false := fun _ => rfl
  simp only [keyPair, putTarget, missed, Bool.false_eq_true, if_false, putPlace, addresses, place,
    mapped, storedPair_holds, if_true, live, Place.target, header, length]

/-- The state of the store where the media are others and more was logged. -/
def storedPairWith (media : Media) (log : List (Bool × List NvmIovec)) : StoreState Bool :=
  { storedPair with media := media, log := log }

/-- The put of the pair alone, from any media where it goes to the first address. -/
theorem keyPair_put {media : Media} {log : List (Bool × List NvmIovec)}
    (target : putTarget cachingTerabyte (storedPairWith media log) 0 keyPair = some (keyLba, 0)) :
    ∃ batch, (kvPut cachingTerabyte 0 keyPair keyAllocation).run (answer cachingTerabyte true)
      (storedPairWith media log) =
        some (.ok 1, (storedPairWith media log).afterPut cachingTerabyte true 0 keyPair batch
          keyLba) := by
  obtain ⟨result, after, ran, effect⟩ := run_kvPut cachingTerabyte true (storedPairWith media log)
    (fun _ => rfl) 0 keyPair keyAllocation
  have accepted : putAccepted cachingTerabyte storedPair 0 keyPair = true := by decide
  obtain ⟨rfl, buf, rfl⟩ := effect.of_written accepted rfl rfl target rfl rfl
  exact ⟨_, ran⟩

/-- The put of the pair leaves an entry of the cache at the first address. -/
theorem keyPair_cached (media : Media) (log : List (Bool × List NvmIovec))
    (batch : List NvmIovec) :
    ∃ slot, (((storedPairWith media log).afterPut cachingTerabyte true 0 keyPair batch keyLba).cache
        slot).key = [97] ∧
      (((storedPairWith media log).afterPut cachingTerabyte true 0 keyPair batch keyLba).cache
        slot).poolId = 0 ∧
      (((storedPairWith media log).afterPut cachingTerabyte true 0 keyPair batch keyLba).cache
        slot).lba = keyLba := by
  obtain ⟨slot, entry, inserted, sameKey, samePool, _, address⟩ :=
    kvCachePut_entry (cacheAddrBits cachingTerabyte.cacheSize) NvmKvCacheTable.initial [97] 0 1
      (absoluteExpiry (putExpiry cachingTerabyte keyPair) 0) 0 keyLba 0
      (cacheAnswer cachingTerabyte (storedPairWith media log) 0 [97]).2
  have caching : 0 < cachingTerabyte.cacheSize := by decide
  have here : ((storedPairWith media log).afterPut cachingTerabyte true 0 keyPair batch
      keyLba).cache slot = entry := by
    simp only [StoreState.afterPut, if_pos caching]
    exact (congrFun inserted slot).trans (Function.update_self _ _ _)
  refine ⟨slot, ?_⟩
  rw [here]
  refine ⟨sameKey, samePool, ?_⟩
  rcases address with given | ⟨_, old, _⟩
  · exact given
  · cases old

/-- The delete of the key finds the pair on the media, as the cache knows nothing of it. -/
theorem storedPair_found : ∃ buf, Program.Moves (answer cachingTerabyte false)
    (kvDelete cachingTerabyte 0 [97] (some fun _ => 0) true) storedPair
    (kvDeleteAt cachingTerabyte 0 [97] keyLba (some buf) true) storedPair := by
  obtain ⟨result, ran, found⟩ := run_kvReadMedia_header cachingTerabyte false storedPair 0
    (fun _ => 0) (show 0 < [97].length by decide) (by decide)
  rw [storedPair_lookup] at found
  obtain ⟨read, rfl, address, _⟩ := found
  have asked : (askCacheDelete [97] 0).run (answer cachingTerabyte false) storedPair =
      some (none, storedPair) := rfl
  refine ⟨read.buf, .seq (run_kvValidatePoolId cachingTerabyte false storedPair 0) ?_⟩
  refine .seq asked ?_
  refine .seq ran ?_
  dsimp only
  rw [address]
  exact .still _ _

/-- The delete has found the pair before the put starts, and trims it afterwards. The
cache remembers the address of the put. -/
theorem delete_trims_cached :
    ¬∀ (store : NvmKvStore) (calls : Bool → StoreCall) (state : StoreState Bool)
      (config : StoreConfig Bool), (∀ thread, (calls thread).PutsOrDeletes) →
      (∀ lba, state.safeLbaList lba = none) → CacheCoherent store state →
      Config.Reachable (answer store) (fun _ _ _ => True) (startCalls store state calls) config →
      (∀ thread, config.threads thread = .done ()) → CacheCoherent store config.shared := by
  intro always
  obtain ⟨buf, finds⟩ := storedPair_found
  have same : storedPair = storedPairWith storedPair.media [] := rfl
  have target := storedPair_target
  rw [same] at target
  obtain ⟨batch, put⟩ := keyPair_put target
  rw [← same] at put
  obtain ⟨slot, sameKey, samePool, address⟩ := keyPair_cached storedPair.media [] batch
  rw [← same] at sameKey samePool address
  obtain ⟨cached, remembered⟩ : ∃ after, after = storedPair.afterPut cachingTerabyte true 0 keyPair
    batch keyLba := ⟨_, rfl⟩
  have unlocked : cached.safeLbaList keyLba = none := by rw [remembered]; rfl
  rw [← remembered] at put sameKey samePool address
  obtain ⟨batches, trims⟩ := run_kvDeleteAt cachingTerabyte false cached 0 [97] (some buf)
    unlocked true
  have begun : Config.Reachable (answer cachingTerabyte) (fun _ _ _ => True)
      (startCalls cachingTerabyte storedPair replaceAndDelete)
      (startCalls cachingTerabyte storedPair replaceAndDelete) := .start
  have searched := begun.moves false rfl (finds.bind _)
  have written := searched.moves true (Function.update_of_ne (by decide) _ _)
    (.seq put (.still _ _))
  have trimmed := written.moves false
    ((Function.update_of_ne (by decide) _ _).trans (Function.update_self _ _ _))
    (.seq trims (.still _ _))
  have coherent := always _ _ _ _ replaceAndDelete_kinds (fun _ => rfl)
    (fun slot some => absurd rfl some) trimmed (by intro thread; cases thread <;> rfl)
  have held := (coherent slot (by
    change (cached.cache slot).key ≠ []
    rw [sameKey]
    exact nofun)).2
  change holds _ (cached.media.trim keyLba _) (cached.cache slot).poolId (cached.cache slot).key
    (cached.cache slot).lba = true at held
  rw [address, samePool, sameKey, holds_unmapped (by decide)
    (Media.trim_inside ⟨le_rfl, Nat.lt_add_of_pos_right (Nat.two_pow_pos _)⟩)] at held
  exact Bool.noConfusion held

/-- While nobody holds an address and the cache is empty, any slot may be had. -/
theorem freeSlot_blank {state : StoreState ι} (idle : Idle state) (blank : state.cache = .initial)
    (thread : ι) (call : StoreCall) (lba : Nat) : FreeSlot store thread call state lba where
  apart := by
    intro held other theirs
    rw [idle held] at theirs
    cases theirs
  remembered := by
    intro slot some
    rw [blank] at some
    exact absurd rfl some

/-- A delete that nobody disturbs meets the condition when the cache is empty. -/
theorem keepsCache_delete {state : StoreState ι} (idle : Idle state)
    (blank : state.cache = .initial) {poolId : UInt32} {key : List UInt8} {buf : Option Region}
    {allocated : Bool}
    (missed : (askCacheDelete key poolId).run (answer store thread) state = some (none, state)) :
    (kvDelete store poolId key buf allocated).Throughout (answer store thread)
      (fun op state => (StoreCall.kvDelete poolId key buf allocated).KeepsCache store thread op
        state) state := by
  have search : AllowsSearch
      (fun op state => (StoreCall.kvDelete poolId key buf allocated).KeepsCache store thread op
        state) (fun lba state => holds store state.media poolId key lba = true)
      state :=
    { idle := idle
      takes := fun _ => ⟨trivial, fun lba _ _ => freeSlot_blank idle blank thread _ lba⟩
      reads := by
        intro op reading
        refine ⟨?_, ?_⟩
        · cases op with
          | readv iovec =>
            rintro ⟨held, mine⟩
            rw [idle held] at mine
            cases mine
          | _ => trivial
        · rintro lba (rfl | rfl)
          · exact reading.elim
          · exact reading.elim }
  refine search.throughout_kvDelete (fun _ => missed) fun {op} _ plain => ⟨?_, ?_⟩
  · cases op with
    | readv iovec => exact plain.elim
    | _ => trivial
  · rintro lba (rfl | rfl)
    · exact plain.elim
    · exact plain.elim

/-- A put that nobody disturbs, that gets its memory and finds its key nowhere meets the condition
when the cache is empty. -/
theorem keepsCache_put {state : StoreState ι} (idle : Idle state) (blank : state.cache = .initial)
    {poolId : UInt32} {pair : NvmKvIovec} {allocation : Allocation} {layout : WriteLayout}
    {buf : Region}
    (missed : (cacheAnswer store state poolId pair.key).1 = false)
    (absent : ∀ lba, holds store state.media poolId pair.key lba = false)
    (allocated : kvAllocForWrite store.capabilities pair.key.length pair.value pair.valueLen
      allocation.buf = .ok (layout, buf)) :
    (kvPut store poolId pair allocation).Throughout (answer store thread)
      (fun op state => (StoreCall.kvPut poolId pair allocation).KeepsCache store thread op state)
      state := by
  have search : AllowsSearch (fun op state => (StoreCall.kvPut poolId pair allocation).KeepsCache
      store thread op state) (FitsPut store poolId pair) state :=
    { idle := idle
      takes := fun _ _ => freeSlot_blank idle blank thread _ _
      reads := by
        intro op reading
        cases op with
        | checkEntry lba => exact reading.elim
        | awaitEntry lba => exact reading.elim
        | deleteEntry lba => exact reading.elim
        | readv iovec =>
          intro vector _ held
          rw [absent] at held
          cases held
        | cacheGet key poolId =>
          intro slot _ _
          rw [blank]
          exact (TrimsWithin.none store pair).1
        | _ => trivial }
  refine search.throughout_kvPut missed ?_ ?_
  · intro layout buf placed context reached _ _
    unfold kvPutWrite
    cases allocation.iovec with
    | none => trivial
    | some memory =>
      dsimp only
      split
      · trivial
      · refine .bind ?_ fun prepared reached _ => .bind ?_ fun written reached _ => ?_
        · unfold kvProcessForWrite
          split_ifs
          · trivial
          · exact ⟨trivial, fun _ _ _ => trivial⟩
        · refine .bind (.perform trivial) fun done reached _ => ?_
          split_ifs <;> trivial
        · cases written with
          | error code => trivial
          | ok done =>
            dsimp only
            split_ifs
            · exact .bind (.perform trivial) fun _ _ _ => trivial
            · trivial
  · intro lba reached code failed
    rw [allocated] at failed
    cases failed

/-- The delete of the key has come to its end, and after it the put of the pair, which wrote in
the trimmed slot: the cache remembers the pair, and its header is there. -/
theorem cache_coherence_rewritten : ∃ (config : StoreConfig Bool) (slot : Nat),
    (∀ thread, config.threads thread = .done ()) ∧
      (config.shared.cache slot).key = [97] ∧ (config.shared.cache slot).poolId = 0 ∧
      (config.shared.cache slot).lba = keyLba ∧ CacheCoherent cachingTerabyte config.shared := by
  obtain ⟨buf, finds⟩ := storedPair_found
  obtain ⟨batches, trims⟩ := run_kvDeleteAt cachingTerabyte false storedPair 0 [97] (some buf)
    (show storedPair.safeLbaList keyLba = none from rfl) true
  obtain ⟨media, trimmed⟩ : ∃ media, media =
    storedPair.media.trim keyLba (2 ^ cachingTerabyte.valueBits) := ⟨_, rfl⟩
  have unmapped : ∀ lba, media lba = none := by
    intro lba
    rw [trimmed, Media.trim]
    split_ifs with inside
    · rfl
    · change (if lba = keyLba then some keyHeader else none) = none
      rw [if_neg]
      rintro rfl
      exact inside ⟨le_rfl, Nat.lt_add_of_pos_right (Nat.two_pow_pos _)⟩
  rw [← trimmed] at trims
  have absent : ∀ lba, holds cachingTerabyte media 0 [97] lba = false :=
    fun lba => holds_unmapped (by decide) (unmapped lba)
  have target : ∀ log, putTarget cachingTerabyte (storedPairWith media log) 0 keyPair =
      some (keyLba, 0) := by
    intro log
    have free : windowFree cachingTerabyte media keyLba = true :=
      windowFree_iff.mpr fun _ _ => unmapped _
    obtain ⟨later, addresses⟩ := probes_keyLba
    have missed : (cacheAnswer cachingTerabyte (storedPairWith media log) 0 [97]).1 = false := rfl
    have there : (storedPairWith media log).media = media := rfl
    simp only [keyPair, putTarget, missed, Bool.false_eq_true, if_false, putPlace, addresses, place,
      there, free, if_true, Place.target]
  obtain ⟨batch, put⟩ := keyPair_put (target (storedPair.log ++ batches.map fun batch =>
    (false, batch)))
  obtain ⟨slot, sameKey, samePool, address⟩ := keyPair_cached media (storedPair.log ++ batches.map
    fun batch => (false, batch)) batch
  have begun : Config.Reachable (answer cachingTerabyte)
      (fun thread op state => (replaceAndDelete thread).KeepsCache cachingTerabyte thread op state)
      (startCalls cachingTerabyte storedPair replaceAndDelete)
      (startCalls cachingTerabyte storedPair replaceAndDelete) := .start
  have deleted := begun.moves_throughout false rfl
    (.bind (keepsCache_delete (fun _ => rfl) rfl rfl) fun _ _ _ => trivial)
    ((finds.bind _).trans (.seq trims (.still _ _)))
  have written := deleted.moves_throughout true (Function.update_of_ne (by decide) _ _)
    (.bind (keepsCache_put (fun _ => rfl) rfl rfl absent rfl) fun _ _ _ => trivial)
    (.seq put (.still _ _))
  have sends : ∀ thread, (replaceAndDelete thread).VectorsSent cachingTerabyte := by
    intro thread
    cases thread with
    | false => trivial
    | true =>
      change 0 < (keyPair.layout cachingTerabyte).iovCount ∧ keyPair.Filled cachingTerabyte
      decide
  exact ⟨_, slot, by intro thread; cases thread <;> rfl, sameKey, samePool, address,
    cache_coherence cachingTerabyte replaceAndDelete replaceAndDelete_kinds sends (fun _ => rfl)
      (fun slot some => absurd rfl some) written⟩

end Nvmkv
