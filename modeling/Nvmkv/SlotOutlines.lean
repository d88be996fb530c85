import Nvmkv.PreparedVectors

/-!
# What the holder of an address knows about it

A put that takes an address of its key without waiting goes on with what it read before. One
that waited reads the header again. In both cases something is known of the address while it
is held: where it was taken at once this comes from the condition under which it was taken,
and where the put waited from the header that it read under the lock.

The outlines here carry such a piece of knowledge, as an assertion on the address that is
stable while the address is held, through the search of a put without a cache to the vectors
that it writes. The length of the value that is to be replaced comes from a header that was
read on the way, and what was known of it then is kept as well.
-/

namespace Nvmkv

variable {ι : Type} {store : NvmKvStore}

/-- What a thread knows about the one address of its key that it holds. It knows it when it
takes the address without waiting and when it finds its key there. -/
structure KnowsAddress (store : NvmKvStore) (discipline : Discipline StoreOp (StoreState ι) ι)
    (thread : ι) (poolId : UInt32) (key : List UInt8) (known : Nat → StoreState ι → Prop) :
    Prop where
  stable : ∀ {lba}, discipline.Stable thread
    fun state => Account thread [lba] state ∧ known lba state
  taken : ∀ {lba state}, lba ∈ store.probes poolId key → discipline.invariant state →
    discipline.allowed thread (.checkEntry lba) state → state.safeLbaList lba = none →
    known lba (state.hold thread lba)
  found : ∀ {lba state}, lba ∈ store.probes poolId key → discipline.invariant state →
    state.safeLbaList lba = some thread →
    holds store state.media poolId key lba = true → known lba state

/-- A put knows besides, from a header of its key that it reads, about the length that is
stored there. -/
structure KnowsSlots (store : NvmKvStore) (discipline : Discipline StoreOp (StoreState ι) ι)
    (thread : ι) (poolId : UInt32) (pair : NvmKvIovec) (known : Nat → StoreState ι → Prop)
    (trims : Nat → Nat → Prop) : Prop extends
    KnowsAddress store discipline thread poolId pair.key known where
  kept : ∀ {lba}, trims lba 0
  replaced : ∀ {lba state}, lba ∈ store.probes poolId pair.key → discipline.invariant state →
    holds store state.media poolId pair.key lba = true →
    trims lba (replacedLen (storedHeader store state.media lba) pair.valueLen)

/-- What a search leaves: one that succeeds holds the address and knows about it. -/
def SearchKnown (store : NvmKvStore) (thread : ι) (poolId : UInt32) (pair : NvmKvIovec)
    (known : Nat → StoreState ι → Prop) (trims : Nat → Nat → Prop) (result : GenLba)
    (state : StoreState ι) : Prop :=
  Account thread (if result.insertLba then [result.keyHashVal] else []) state ∧
    (result.retCode = .ok () → result.insertLba = true ∧
      result.keyHashVal ∈ store.probes poolId pair.key ∧ known result.keyHashVal state ∧
        trims result.keyHashVal result.trimLen)

/-- What the reading of one address leaves. -/
def SlotKnown (store : NvmKvStore) (thread : ι) (poolId : UInt32) (pair : NvmKvIovec)
    (known : Nat → StoreState ι → Prop) (trims : Nat → Nat → Prop) (lba : Nat) :
    SlotRead → StoreState ι → Prop
  | .returns result => SearchKnown store thread poolId pair known trims result
  | .leaves true trimLen _ => fun state =>
      (Account thread [lba] state ∧ known lba state) ∧ trims lba trimLen
  | .leaves false _ _ => Account thread []

/-- What the body of a put leaves: the address that it releases, and more when it was
successful. -/
def PutEnds (thread : ι) (ends : StoreState ι → Prop) (body : PutBody) (state : StoreState ι) :
    Prop :=
  Account thread (if body.insertLba then [body.keyHashVal] else []) state ∧
    (body.retCode = .ok () → ends state)

namespace ProtectsSafeList

variable {discipline : Discipline StoreOp (StoreState ι) ι} {thread : ι} {lba : Nat}
  {fact : StoreState ι → Prop}

/-- Removing an address keeps what does not depend on the safe list. -/
theorem outline_deleteLba_keeps (protects : ProtectsSafeList store discipline)
    (stable : discipline.Stable thread fact)
    (kept : ∀ state, fact state → fact (state.release lba)) :
    discipline.Outline (answer store) thread (deleteLbaFromSafeList lba)
      (fun state => Account thread [lba] state ∧ fact state)
      fun _ state => Account thread [] state ∧ fact state := by
  refine Discipline.Outline.perform ?_ ?_
  · exact fun before after first second relied holds =>
      ⟨protects.stable_account before after first second relied holds.1,
        stable before after first second relied holds.2⟩
  · rintro state invariant ⟨account, holds⟩
    obtain ⟨checked, released, relied⟩ := @removes _ _ _ protects thread lba state invariant
      ((account.2 lba).mpr List.mem_cons_self)
    refine ⟨checked, ?_⟩
    intro answered reached _ reply
    obtain ⟨_, rfl⟩ := Prod.mk.inj (Option.some.inj reply)
    exact ⟨released, relied, account.drop, kept state holds⟩

end ProtectsSafeList

/-- An address that was taken without waiting is known. -/
theorem KnowsAddress.outline_insertEntry {discipline : Discipline StoreOp (StoreState ι) ι}
    {thread : ι} {poolId : UInt32} {key : List UInt8} {known : Nat → StoreState ι → Prop}
    {lba : Nat} (protects : ProtectsSafeList store discipline)
    (knows : KnowsAddress store discipline thread poolId key known)
    (probed : lba ∈ store.probes poolId key) :
    discipline.Outline (answer store) thread (insertEntry lba) (Account thread [])
      fun wait state => Account thread [lba] state ∧ (wait = false → known lba state) := by
  have asked : discipline.Outline (answer store) thread (checkEntry lba) (Account thread [])
      fun free state => Account thread (if free then [lba] else []) state ∧
        (free = true → known lba state) := by
    refine Discipline.Outline.perform protects.stable_account ?_
    intro state invariant account
    refine ⟨(protects.asks thread lba state).1, ?_⟩
    intro answered reached allowed reply
    rw [answer] at reply
    split_ifs at reply with free
    · rw [Option.isNone_iff_eq_none] at free
      obtain ⟨rfl, rfl⟩ := Prod.mk.inj (Option.some.inj reply)
      obtain ⟨kept, relied⟩ :=
        @ProtectsSafeList.takes _ _ _ protects thread lba state invariant (.inl allowed) free
      exact ⟨kept, relied, account.take free,
        fun _ => knows.taken probed invariant allowed free⟩
    · obtain ⟨rfl, rfl⟩ := Prod.mk.inj (Option.some.inj reply)
      exact ⟨invariant, fun other _ => protects.still other state, account, fun taken =>
        Bool.noConfusion taken⟩
  refine Discipline.Outline.bind asked fun free => ?_
  cases free with
  | true => exact fun _ _ holds => ⟨holds.1, fun _ => holds.2 rfl⟩
  | false =>
    refine Discipline.Outline.bind (protects.outline_awaitEntry.strengthen fun _ _ holds => holds.1)
      fun _ => ?_
    exact fun _ _ account => ⟨account, fun taken => Bool.noConfusion taken⟩

namespace KnowsSlots

variable {discipline : Discipline StoreOp (StoreState ι) ι} {thread : ι} {poolId : UInt32}
  {pair : NvmKvIovec} {known : Nat → StoreState ι → Prop} {trims : Nat → Nat → Prop} {lba : Nat}
  {buf : Region} (protects : ProtectsSafeList store discipline)
  (knows : KnowsSlots store discipline thread poolId pair known trims)
include protects knows

/-- The reading of an address that is not held, or held after waiting for it. Induction follows the
rounds: a second one starts with the address held. A header of the key tells its length, and its
address if that is held. -/
theorem outline_kvGenLbaRead (short : pair.key.length ≤ nvmKvMaxKeySize)
    (probed : lba ∈ store.probes poolId pair.key) {rounds : Nat} {insertLba : Bool} :
    discipline.Outline (answer store) thread
      (kvGenLbaRead store poolId pair lba rounds insertLba buf)
      (Account thread (if insertLba then [lba] else []))
      (SlotKnown store thread poolId pair known trims lba) := by
  induction rounds generalizing insertLba buf with
  | zero => exact protects.outline_never
  | succ rounds inductionHypothesis =>
    have learned : ∀ state, discipline.invariant state →
        Account thread (if insertLba then [lba] else []) state →
        headerMatches (slotBuffer store state.media buf lba) poolId pair.key = true →
          trims lba (replacedLen (readHeader (slotBuffer store state.media buf lba))
            pair.valueLen) ∧ (insertLba = true → known lba state) := by
      intro state invariant account matched
      rw [headerMatches_slotBuffer store state.media buf lba poolId short] at matched
      rw [readHeader_slotBuffer]
      refine ⟨knows.replaced probed invariant matched, fun held => ?_⟩
      rw [if_pos held] at account
      exact knows.found probed invariant ((account.2 lba).mpr List.mem_cons_self) matched
    refine Discipline.Outline.bind (@ReadsFreely.outline_nvmReadv_sector _ _ _ protects.readsFreely
      thread _ (fun region state => headerMatches region poolId pair.key = true →
        trims lba (replacedLen (readHeader region) pair.valueLen) ∧
          (insertLba = true → known lba state)) buf lba protects.stable_account
      fun state invariant account _ => learned state invariant account) fun read => ?_
    cases read with
    | error code => exact fun state _ holds => ⟨holds.1, nofun⟩
    | ok result =>
      obtain ⟨readLen, regions⟩ := result
      refine Discipline.Outline.ite (fun matched => ?_) fun other => ?_
      · cases insertLba with
        | true =>
          refine Discipline.Outline.strengthen (Discipline.Outline.given fun length : trims lba
            (replacedLen (readHeader (regions.headD buf)) pair.valueLen) => (?_ :
              discipline.Outline _ thread _ (fun state => Account thread [lba] state ∧
                known lba state) _)) ?_
          · refine Discipline.Outline.bind
              (protects.readsFreely.outline_reads (reads_kvExpire_keep _ _) knows.stable)
              fun expired => ?_
            split
            · exact fun state _ holds =>
                ⟨holds.1, fun _ => ⟨rfl, probed, holds.2, knows.kept⟩⟩
            · exact fun state _ holds => ⟨holds.1, nofun⟩
            · refine Discipline.Outline.ite (fun _ => ?_) fun _ => ?_
              · exact fun state _ holds => ⟨holds, length⟩
              · exact fun state _ holds => ⟨holds.1, nofun⟩
          · rintro state _ ⟨account, told⟩
            obtain ⟨region, rfl, tells⟩ := told readLen regions rfl
            obtain ⟨length, holding⟩ := tells matched
            exact ⟨⟨account, holding rfl⟩, length⟩
        | false =>
          refine Discipline.Outline.strengthen (Discipline.Outline.given fun length : trims lba
            (replacedLen (readHeader (regions.headD buf)) pair.valueLen) => (?_ :
              discipline.Outline _ thread _ (Account thread []) _)) ?_
          · have taken : ∀ {found : SlotRead} {read : Region},
                (∀ state, Account thread [lba] state ∧ known lba state →
                  SlotKnown store thread poolId pair known trims lba found state) →
                discipline.Outline (answer store) thread (do
                  let wait ← insertEntry lba
                  if wait then kvGenLbaRead store poolId pair lba rounds true read
                  else pure found) (Account thread [])
                  (SlotKnown store thread poolId pair known trims lba) := by
              intro found read ends
              refine Discipline.Outline.bind (knows.toKnowsAddress.outline_insertEntry protects
                probed)
                fun wait => ?_
              cases wait with
              | true =>
                exact Discipline.Outline.strengthen (@inductionHypothesis read true)
                  fun _ _ holds => holds.1
              | false => exact fun state _ holds => ends state ⟨holds.1, holds.2 rfl⟩
            refine Discipline.Outline.bind
              (protects.readsFreely.outline_reads (reads_kvExpire_keep _ _) protects.stable_account)
              fun expired => ?_
            split
            · exact taken fun state holds =>
                ⟨holds.1, fun _ => ⟨rfl, probed, holds.2, knows.kept⟩⟩
            · exact fun state _ account => ⟨account, nofun⟩
            · refine Discipline.Outline.ite (fun _ => ?_) fun _ => ?_
              · exact taken fun state holds => ⟨holds, length⟩
              · exact fun state _ account => ⟨account, nofun⟩
          · rintro state _ ⟨account, told⟩
            obtain ⟨region, rfl, tells⟩ := told readLen regions rfl
            exact ⟨account, (tells matched).1⟩
      · cases insertLba with
        | true =>
          exact Discipline.Outline.bind (protects.outline_deleteLba.strengthen
            fun _ _ holds => holds.1) fun _ _ _ account => account
        | false => exact fun state _ holds => holds.1

/-- Reading one address of a search and going on when it is not taken. -/
theorem outline_kvGenLbaAt (short : pair.key.length ≤ nvmKvMaxKeySize)
    (probed : lba ∈ store.probes poolId pair.key) {insertLba : Bool}
    {next : Region → StoreM GenLba}
    (further : ∀ buf, discipline.Outline (answer store) thread (next buf) (Account thread [])
      (SearchKnown store thread poolId pair known trims)) :
    discipline.Outline (answer store) thread
      (kvGenLbaAt store poolId pair lba insertLba buf next)
      (Account thread (if insertLba then [lba] else []))
      (SearchKnown store thread poolId pair known trims) := by
  refine Discipline.Outline.bind (knows.outline_kvGenLbaRead protects short probed) fun read => ?_
  split
  · exact fun state _ holds => holds
  · rintro state _ ⟨⟨account, fact⟩, length⟩
    exact ⟨account, fun _ => ⟨rfl, probed, fact, length⟩⟩
  · exact further _

/-- The search along addresses of the key. Induction follows the addresses. -/
theorem outline_kvGenLbaProbes (short : pair.key.length ≤ nvmKvMaxKeySize) {lbas : List Nat}
    (among : ∀ lba ∈ lbas, lba ∈ store.probes poolId pair.key) :
    discipline.Outline (answer store) thread
      (kvGenLbaProbes store poolId pair lbas false buf) (Account thread [])
      (SearchKnown store thread poolId pair known trims) := by
  induction lbas generalizing buf with
  | nil => exact fun state _ account => ⟨account, nofun⟩
  | cons lba rest inductionHypothesis =>
    have probed := among lba List.mem_cons_self
    have further : ∀ buf, discipline.Outline (answer store) thread
        (kvGenLbaProbes store poolId pair rest false buf) (Account thread [])
        (SearchKnown store thread poolId pair known trims) :=
      fun buf => inductionHypothesis fun lba member => among lba (List.mem_cons_of_mem _ member)
    refine Discipline.Outline.bind
      (protects.readsFreely.outline_reads (reads_kvRangeExists _) protects.stable_account)
      fun found => ?_
    split
    · refine Discipline.Outline.bind (knows.toKnowsAddress.outline_insertEntry protects probed)
        fun wait => ?_
      cases wait with
      | true =>
        exact Discipline.Outline.strengthen
          (@outline_kvGenLbaAt _ _ _ _ _ _ _ _ lba buf protects knows short probed true _ further)
          fun _ _ holds => holds.1
      | false =>
        exact fun state _ holds => ⟨holds.1, fun _ => ⟨rfl, probed, holds.2 rfl, knows.kept⟩⟩
    · exact fun state _ account => ⟨account, nofun⟩
    · exact knows.outline_kvGenLbaAt protects short probed further

section Put

variable {allocation : Allocation} {ends : StoreState ι → Prop}
  (written : ∀ (layout : WriteLayout) (unused : Region) (placed : GenLba)
    (context : NvmKvCacheContext), pair.Valid store →
    kvAllocForWrite store.capabilities pair.key.length pair.value pair.valueLen allocation.buf =
      .ok (layout, unused) → placed.insertLba = true →
    placed.keyHashVal ∈ store.probes poolId pair.key →
    trims placed.keyHashVal placed.trimLen →
    discipline.Outline (answer store) thread
      (kvPutWrite store poolId pair layout placed allocation.iovec context)
      (fun state => Account thread [placed.keyHashVal] state ∧ known placed.keyHashVal state)
      (PutEnds thread ends))
include written

/-- The placing of a put that has no cache to ask. -/
theorem outline_kvPutPlace {context : NvmKvCacheContext} (valid : pair.Valid store) :
    discipline.Outline (answer store) thread
      (kvPutPlace store poolId pair allocation context false) (Account thread [])
      (PutEnds thread ends) := by
  have short : pair.key.length ≤ nvmKvMaxKeySize := (of_decide_eq_true valid.1).2
  unfold kvPutPlace
  split
  · exact fun state _ account => ⟨account, nofun⟩
  · rename_i layout given allocated
    refine Discipline.Outline.bind
      (knows.outline_kvGenLbaProbes protects short fun lba member => member) fun placed => ?_
    obtain ⟨retCode, trimLen, keyHashVal, insertLba, read⟩ := placed
    cases retCode with
    | error code => exact fun state _ holds => ⟨holds.1, nofun⟩
    | ok done =>
      cases done
      refine Discipline.Outline.strengthen (Discipline.Outline.given
        fun told : insertLba = true ∧ keyHashVal ∈ store.probes poolId pair.key ∧
          trims keyHashVal trimLen =>
        written layout given ⟨.ok (), trimLen, keyHashVal, insertLba, read⟩ context valid allocated
          told.1 told.2.1 told.2.2) ?_
      rintro state _ ⟨account, succeeded⟩
      obtain ⟨held, probed, fact, length⟩ := succeeded rfl
      dsimp only at held account
      rw [if_pos held] at account
      exact ⟨⟨account, fact⟩, held, probed, length⟩

end Put

end KnowsSlots

/-- The writing of a put without a cache, once its batch is outlined. -/
theorem ProtectsSafeList.outline_kvPutWrite {discipline : Discipline StoreOp (StoreState ι) ι}
    {thread : ι} {poolId : UInt32} {pair : NvmKvIovec} {layout : WriteLayout} {placed : GenLba}
    {context : NvmKvCacheContext} {memory : Option (Nat → NvmIovec)}
    {assertion ends : StoreState ι → Prop} (protects : ProtectsSafeList store discipline)
    (uncached : store.cacheSize = 0) (held : placed.insertLba = true)
    (stable : discipline.Stable thread fun state =>
      Account thread [placed.keyHashVal] state ∧ assertion state)
    (handed : ∀ (memory : Nat → NvmIovec) (trims : List NvmIovec) (clock : Nat),
      kvProcessForTrim store.capabilities pair.valueLen placed.trimLen placed.keyHashVal =
        .ok trims →
      discipline.Outline (answer store) thread
        (nvmWritev (handedIovec memory (trims ++ putIovec store poolId pair layout placed.buf clock
          placed.keyHashVal) layout.iovCount))
        (fun state => Account thread [placed.keyHashVal] state ∧ assertion state)
        fun retCode state => Account thread [placed.keyHashVal] state ∧
          (retCode = .ok () → ends state)) :
    discipline.Outline (answer store) thread
      (kvPutWrite store poolId pair layout placed memory context)
      (fun state => Account thread [placed.keyHashVal] state ∧ assertion state)
      (PutEnds thread ends) := by
  have released : ∀ (retCode : Except NvmErrorCode Unit) (state : StoreState ι),
      Account thread [placed.keyHashVal] state → (retCode = .ok () → ends state) →
        PutEnds thread ends ⟨retCode, placed.keyHashVal, placed.insertLba⟩ state := by
    intro retCode state account handed
    refine ⟨?_, handed⟩
    rw [if_pos held]
    exact account
  unfold kvPutWrite
  cases memory with
  | none => exact fun state _ holds => released _ state holds.1 nofun
  | some memory =>
    dsimp only
    split
    · exact fun state _ holds => released _ state holds.1 nofun
    · rename_i trims trimmed
      refine Discipline.Outline.bind (protects.readsFreely.outline_reads_returns
        (reads_kvProcessForWrite _ _ _ _ _ _) (returns_kvProcessForWrite _ _ _ _ _) stable)
        fun prepared => ?_
      refine Discipline.Outline.given fun ⟨clock, same⟩ => ?_
      subst same
      refine Discipline.Outline.bind (handed memory trims clock trimmed) fun retCode => ?_
      cases retCode with
      | error code => exact fun state _ holds => released _ state holds.1 nofun
      | ok done =>
        dsimp only
        rw [if_neg (by omega)]
        exact fun state _ holds => released _ state holds.1 fun _ => holds.2 rfl

/-- A put without a cache releases the address that it took. -/
theorem ProtectsSafeList.outline_kvPut_known {discipline : Discipline StoreOp (StoreState ι) ι}
    {thread : ι} {poolId : UInt32} {pair : NvmKvIovec} {known : Nat → StoreState ι → Prop}
    {trims : Nat → Nat → Prop} {allocation : Allocation} {ends : StoreState ι → Prop}
    (protects : ProtectsSafeList store discipline)
    (knows : pair.Valid store → KnowsSlots store discipline thread poolId pair known trims)
    (written : ∀ (layout : WriteLayout) (unused : Region) (placed : GenLba)
      (context : NvmKvCacheContext), pair.Valid store →
      kvAllocForWrite store.capabilities pair.key.length pair.value pair.valueLen allocation.buf =
        .ok (layout, unused) → placed.insertLba = true →
      placed.keyHashVal ∈ store.probes poolId pair.key →
      trims placed.keyHashVal placed.trimLen →
      discipline.Outline (answer store) thread
        (kvPutWrite store poolId pair layout placed allocation.iovec context)
        (fun state => Account thread [placed.keyHashVal] state ∧ known placed.keyHashVal state)
        (PutEnds thread ends))
    (uncached : store.cacheSize = 0) (stable : discipline.Stable thread ends)
    (kept : ∀ state lba, ends state → ends (state.release lba)) :
    discipline.Outline (answer store) thread (kvPut store poolId pair allocation)
      (Account thread []) fun result state => Account thread [] state ∧
        ∀ length, result = .ok length → ends state := by
  have body : discipline.Outline (answer store) thread
      (kvPutBody store poolId pair allocation) (Account thread []) (PutEnds thread ends) := by
    refine Discipline.Outline.bind (protects.readsFreely.outline_reads (reads_kvValidatePoolId _)
      protects.stable_account) fun accepted => ?_
    refine Discipline.Outline.ite (fun _ => fun state _ account => ⟨account, nofun⟩)
      fun accepted => ?_
    rw [if_neg (by omega)]
    have valid : pair.Valid store := by
      simp only [Bool.or_eq_true, Bool.not_eq_true', not_or, Bool.not_eq_false] at accepted
      exact ⟨accepted.1.2, accepted.2⟩
    exact (knows valid).outline_kvPutPlace protects written valid
  refine Discipline.Outline.bind body fun body => ?_
  obtain ⟨retCode, keyHashVal, insertLba⟩ := body
  have fact : discipline.Stable thread fun state => retCode = .ok () → ends state :=
    fun before after first second relied holds success =>
      stable before after first second relied (holds success)
  have result : ∀ state, (retCode = .ok () → ends state) →
      ∀ length, retCode.map (fun _ => pair.valueLen) = .ok length → ends state := by
    intro state holds length success
    cases retCode with
    | error code => cases success
    | ok done => exact holds rfl
  refine Discipline.Outline.ite (fun held => ?_) fun free => ?_
  · refine Discipline.Outline.bind (Discipline.Outline.strengthen
      (protects.outline_deleteLba_keeps fact fun state holds success =>
        kept state keyHashVal (holds success)) ?_) fun _ => ?_
    · rintro state _ ⟨account, holds⟩
      dsimp only at held account
      rw [if_pos held] at account
      exact ⟨account, holds⟩
    · exact fun state _ holds => ⟨holds.1, result state holds.2⟩
  · rintro state _ ⟨account, holds⟩
    dsimp only at free account
    rw [if_neg free] at account
    exact ⟨account, result state holds⟩

end Nvmkv
