import Nvmkv.SafeListOrder
import Nvmkv.SafeListOwnership

/-!
# The addresses of a batch put

A batch put keeps all the addresses that it takes until its end, and one flag for
all of them. The flag is right as a whole: it is set exactly when an address was
chosen. It is wrong about a single address when a search starts with the flag set,
because the search then believes to hold the first address that it reads. The
condition on the batch leaves such a reading one way to end, the refusal of a pair
that may not be replaced, and this one releases nothing that is not held.

The vectors are prepared for the pairs at the addresses chosen, so that the account of
the batch covers what it hands to the device.
-/

namespace Nvmkv

variable {ι : Type} {store : NvmKvStore}

namespace LbaList

/-- The chosen addresses in the order in which they were chosen. -/
def chosen (lbaList : LbaList) : List Nat := lbaList.map Prod.fst

variable {lbaList : LbaList} {lba : Nat} {key : List UInt8}

/-- An address is chosen just when it has a key. -/
theorem mem_chosen : lba ∈ lbaList.chosen ↔ (lbaList.lookup lba).isSome = true := by
  rw [List.lookup_isSome_iff, chosen, List.mem_map]
  constructor
  · rintro ⟨entry, member, rfl⟩
    exact ⟨entry, member, beq_self_eq_true _⟩
  · rintro ⟨entry, member, same⟩
    exact ⟨entry, member, (eq_of_beq same).symm⟩

/-- One that is chosen again is not listed again. -/
theorem insert_chosen_mem (member : lba ∈ lbaList.chosen) :
    (lbaList.insert lba key).chosen = lbaList.chosen := by
  rw [LbaList.insert, if_pos (mem_chosen.mp member)]

/-- A new one is listed behind the others. -/
theorem insert_chosen_new (new : lba ∉ lbaList.chosen) :
    (lbaList.insert lba key).chosen = lbaList.chosen ++ [lba] := by
  rw [LbaList.insert, if_neg fun found => new (mem_chosen.mpr found), chosen, List.map_append]
  rfl

/-- What is released at the end are the chosen addresses, in some order. -/
theorem lbas_perm : lbaList.lbas.Perm lbaList.chosen := List.perm_insertionSort _ _

/-- The list after an insertion has the old addresses and the new one. -/
theorem mem_insert_chosen {other : Nat} :
    other ∈ (lbaList.insert lba key).chosen ↔ other ∈ lbaList.chosen ∨ other = lba := by
  by_cases member : lba ∈ lbaList.chosen
  · rw [insert_chosen_mem member]
    exact ⟨Or.inl, fun found => found.elim id fun same => same ▸ member⟩
  · rw [insert_chosen_new member, List.mem_append, List.mem_singleton]

end LbaList

/-- Where the search of a batch starts: all addresses before are chosen, and it is
not. Induction follows the addresses that are skipped. -/
theorem skipChosen_probes {lbaList : LbaList} {key : List UInt8} {lbas found : List Nat}
    (starts : skipChosen lbaList key lbas = .probes found) :
    ∃ skipped lba rest, lbas = skipped ++ lba :: rest ∧ found = lba :: rest ∧
      lba ∉ lbaList.chosen ∧ ∀ earlier ∈ skipped, earlier ∈ lbaList.chosen := by
  induction lbas with
  | nil => exact nomatch starts
  | cons lba tail inductionHypothesis =>
    cases tail with
    | nil => exact nomatch starts
    | cons next rest =>
      rw [skipChosen] at starts
      split at starts
      · rename_i free
        refine ⟨[], lba, next :: rest, rfl, (BatchStart.probes.inj starts).symm, ?_, nofun⟩
        rw [LbaList.mem_chosen, free]
        exact nofun
      · rename_i chosenKey taken
        split_ifs at starts with same
        obtain ⟨skipped, first, later, split, rfl, new, before⟩ := inductionHypothesis starts
        refine ⟨lba :: skipped, first, later, by rw [split]; rfl, rfl, new, ?_⟩
        intro earlier member
        rcases List.mem_cons.mp member with rfl | member
        · rw [LbaList.mem_chosen, taken]
          rfl
        · exact before earlier member

/-- The address of a key that the batch has already is a chosen one. -/
theorem skipChosen_duplicate {lbaList : LbaList} {key : List UInt8} {lbas : List Nat} {lba : Nat}
    (starts : skipChosen lbaList key lbas = .duplicate lba) : lba ∈ lbaList.chosen := by
  induction lbas with
  | nil => exact nomatch starts
  | cons first tail inductionHypothesis =>
    cases tail with
    | nil => exact nomatch starts
    | cons next rest =>
      rw [skipChosen] at starts
      split at starts
      · exact nomatch starts
      · rename_i chosenKey taken
        split_ifs at starts with same
        · obtain rfl := BatchStart.duplicate.inj starts
          rw [LbaList.mem_chosen, taken]
          rfl
        · exact inductionHypothesis starts

/-- A vector is one with which a pair of a batch is put at one of some addresses. -/
def OfBatchPut (store : NvmKvStore) (poolId : UInt32) (kvIov : List NvmKvIovec) (lbas : List Nat)
    (vector : NvmIovec) : Prop :=
  ∃ lba, lba ∈ lbas ∧ ∃ pair ∈ kvIov, OfPut store poolId pair lba [vector]

/-- The vectors of a batch are for its pairs at the chosen addresses, and the flag tells whether
there are any. -/
structure BatchState.Prepared (store : NvmKvStore) (poolId : UInt32) (kvIov : List NvmKvIovec)
    (state : BatchState) : Prop where
  trims : ∀ i, i < state.idxTrm →
    OfBatchPut store poolId kvIov state.lbaList.chosen (state.iovecTrm i)
  writes : ∀ i, i < state.idxWrt →
    OfBatchPut store poolId kvIov state.lbaList.chosen (state.iovecWrt i)
  flag : state.insertLba = true ↔ state.lbaList ≠ []

/-- Before the first pair nothing is prepared and nothing chosen. -/
theorem prepared_initial {poolId : UInt32} {kvIov : List NvmKvIovec}
    (iovecTrm iovecWrt : Nat → NvmIovec) :
    (BatchState.initial iovecTrm iovecWrt).Prepared store poolId kvIov where
  trims := fun _ none => nomatch none
  writes := fun _ none => nomatch none
  flag := ⟨nofun, fun none => absurd rfl none⟩

/-- What the search for one pair leaves to the account of a batch: when it succeeds the
chosen addresses with the new one, and otherwise these and perhaps one more. -/
def BatchLbaHeld (thread : ι) (lbaList : LbaList) (key : List UInt8) (result : GenLba)
    (state : StoreState ι) : Prop :=
  match result.retCode with
  | .ok () => result.insertLba = true ∧
      Account thread (lbaList.insert result.keyHashVal key).chosen state
  | .error _ => ∃ more, Account thread (lbaList.chosen ++ more) state

/-- A search that inserted its address itself. -/
theorem GenLbaHeld.batch {thread : ι} {lbaList : LbaList} {key : List UInt8} {result : GenLba}
    {state : StoreState ι} (held : GenLbaHeld thread lbaList.chosen result state) :
    BatchLbaHeld thread lbaList key result state := by
  obtain ⟨retCode, trimLen, keyHashVal, insertLba, buf⟩ := result
  have grown : ∀ {lba : Nat}, Account thread (lba :: lbaList.chosen) state →
      Account thread (lbaList.chosen ++ [lba]) state :=
    fun account => account.perm (List.perm_append_singleton _ _).symm
  cases insertLba with
  | true =>
    have account : Account thread (keyHashVal :: lbaList.chosen) state := held
    cases retCode with
    | error code => exact ⟨[keyHashVal], grown account⟩
    | ok done =>
      refine ⟨rfl, ?_⟩
      rw [LbaList.insert_chosen_new (List.nodup_cons.mp account.1).1]
      exact grown account
  | false =>
    cases retCode with
    | error code => exact ⟨[], by rw [List.append_nil]; exact held.1⟩
    | ok done => exact absurd rfl held.2

section Searches

variable {calls : ι → StoreCall} {thread : ι} {poolId : UInt32} {kvIov : List NvmKvIovec}
  {allocation : BatchAllocation} {pair : NvmKvIovec}

/-- A pair that was live when its header was read is live when the clock is asked. -/
theorem owned_kvExpire_live {hdr : NvmKvHeader} {lba : Nat} {lbas : List Nat} :
    (ownership store calls).Outline (answer store) thread (kvExpire store hdr lba false)
      (fun state => Account thread lbas state ∧ pairExpired store state.clock hdr = false)
      fun result state => Account thread lbas state ∧ result = .ok () := by
  refine Discipline.Outline.ite (fun _ => fun _ _ starts => ⟨starts.1, rfl⟩) fun enabled => ?_
  have asked : (ownership store calls).Outline (answer store) thread currentTime
      (fun state => Account thread lbas state ∧ pairExpired store state.clock hdr = false)
      fun time state => Account thread lbas state ∧ pairExpired store time hdr = false := by
    refine Discipline.Outline.perform ?_ ?_
    · rintro before after _ _ relied ⟨account, live⟩
      refine ⟨ownership_protects.stable_account before after trivial trivial relied account, ?_⟩
      rw [relied.2]
      exact live
    · intro state _ starts
      refine ⟨trivial, ?_⟩
      intro answered reached _ reply
      obtain ⟨rfl, rfl⟩ := Prod.mk.inj (Option.some.inj reply)
      exact ⟨trivial, fun _ _ => ⟨fun _ => Iff.rfl, rfl⟩, starts⟩
  refine Discipline.Outline.bind asked fun time => Discipline.Outline.given fun live => ?_
  refine Discipline.Outline.ite (fun expired => ?_) fun _ => fun _ _ account => ⟨account, rfl⟩
  simp only [pairExpired, enabled, ne_eq, not_false_eq_true, true_and, decide_eq_false_iff_not]
    at live
  exact absurd expired live

/-- The reading of an address that the batch believes to hold. It finds a pair that may
not be replaced. -/
theorem owned_kvGenLbaRead_believed (call : calls thread = .kvBatchPut poolId kvIov allocation)
    {lbas skipped rest : List Nat} {lba rounds : Nat} {buf : Region} (among : pair ∈ kvIov)
    (short : pair.key.length ≤ nvmKvMaxKeySize) (some : lbas ≠ [])
    (split : store.probes poolId pair.key = skipped ++ lba :: rest)
    (new : lba ∉ lbas) (before : ∀ earlier ∈ skipped, earlier ∈ lbas) :
    (ownership store calls).Outline (answer store) thread
      (kvGenLbaRead store poolId pair lba (rounds + 1) true buf) (Account thread lbas)
      fun read state => Account thread lbas state ∧
        ∃ code after, read = .returns ⟨.error code, 0, lba, true, after⟩ := by
  have learned : ∀ state, (ownership store calls).invariant state → Account thread lbas state →
      (ownership store calls).allowed thread
        (.readv [⟨poolBuffer buf, store.sectorSize, lba, .write⟩]) state →
      (pairExpired store state.clock (readHeader (slotBuffer store state.media buf lba)) = false ∧
        pair.replace = false ∧
        headerMatches (slotBuffer store state.media buf lba) poolId pair.key = true) := by
    intro state _ account allowed
    obtain ⟨held, member⟩ := List.exists_mem_of_ne_nil lbas some
    have keeps : (calls thread).KeepsOwnership store thread
      (.readv [⟨poolBuffer buf, store.sectorSize, lba, .write⟩]) state := allowed
    rw [call] at keeps
    obtain ⟨kept, found, live⟩ := keeps ⟨held, (account.2 held).mpr member⟩ _
      (List.mem_singleton_self _) pair among
      ⟨fun mine => new ((account.2 lba).mp mine), skipped, rest, split,
        fun earlier early => (account.2 earlier).mpr (before earlier early)⟩
    rw [readHeader_slotBuffer, headerMatches_slotBuffer store state.media buf lba poolId short]
    exact ⟨live, kept, found⟩
  unfold kvGenLbaRead
  refine Discipline.Outline.bind (@ReadsFreely.outline_nvmReadv_sector _ _ _
    ownership_protects.readsFreely thread _ (fun region state =>
      pairExpired store state.clock (readHeader region) = false ∧ pair.replace = false ∧
        headerMatches region poolId pair.key = true) _ _
    ownership_protects.stable_account learned) fun read => ?_
  cases read with
  | error code => exact fun _ _ holds => ⟨holds.1, _, _, rfl⟩
  | ok result =>
    obtain ⟨readLen, regions⟩ := result
    refine Discipline.Outline.strengthen (@Discipline.Outline.chosen _ _ _ _ _ _ _ Region thread _
      (fun region state => (Account thread lbas state ∧
          pairExpired store state.clock (readHeader region) = false) ∧
        regions = [region] ∧ pair.replace = false ∧
          headerMatches region poolId pair.key = true) _
      fun region => Discipline.Outline.given fun known => ?_) ?_
    · obtain ⟨rfl, kept, matched⟩ := known
      refine Discipline.Outline.ite (fun _ => ?_) fun other => absurd matched other
      refine Discipline.Outline.bind owned_kvExpire_live fun result => ?_
      refine Discipline.Outline.given fun live => ?_
      subst live
      refine Discipline.Outline.ite (fun replace => ?_) fun _ => ?_
      · exact absurd (kept.symm.trans replace) Bool.noConfusion
      · exact fun _ _ account => ⟨account, _, _, rfl⟩
    · rintro state _ ⟨account, known⟩
      obtain ⟨region, same, live, kept, matched⟩ := known readLen regions rfl
      exact ⟨region, ⟨account, live⟩, same, kept, matched⟩

/-- The search for one pair of a batch. The flag is right when nothing was chosen; else
the first address is one that the batch believes to hold. -/
theorem owned_batch_kvGenLba (call : calls thread = .kvBatchPut poolId kvIov allocation)
    {lbaList : LbaList} {insertLba : Bool} {buf : Region} (among : pair ∈ kvIov)
    (short : pair.key.length ≤ nvmKvMaxKeySize) (flag : insertLba = true ↔ lbaList ≠ []) :
    (ownership store calls).Outline (answer store) thread
      (kvGenLba store poolId pair buf insertLba (some lbaList)) (Account thread lbaList.chosen)
      (BatchLbaHeld thread lbaList pair.key) := by
  have held : ∀ {lba : Nat}, lba ∈ lbaList.chosen → lbaList ≠ [] := by
    rintro lba member rfl
    exact nomatch member
  have refused : ∀ (code : NvmErrorCode) (lba : Nat) (flag : Bool) (buf : Region)
      (state : StoreState ι), Account thread lbaList.chosen state →
        BatchLbaHeld thread lbaList pair.key ⟨.error code, 0, lba, flag, buf⟩ state :=
    fun code lba flag buf state account => ⟨[], by rwa [List.append_nil]⟩
  unfold kvGenLba
  dsimp only
  split
  · rename_i lba starts
    have member := skipChosen_duplicate starts
    intro state _ account
    refine ⟨flag.mpr (held member), ?_⟩
    rw [LbaList.insert_chosen_mem member]
    exact account
  · exact fun state _ account => refused _ _ _ _ state account
  · rename_i found starts
    obtain ⟨skipped, lba, rest, split, rfl, new, before⟩ := skipChosen_probes starts
    cases insertLba with
    | false =>
      exact ownership_protects.outline_kvGenLbaProbes.weaken fun _ _ _ account => account.batch
    | true =>
      have some : lbaList.chosen ≠ [] := fun none => flag.mp rfl (List.map_eq_nil_iff.mp none)
      refine Discipline.Outline.bind (ownership_protects.readsFreely.outline_reads
        (reads_kvRangeExists _)
        ownership_protects.stable_account) fun found => ?_
      split
      · refine Discipline.Outline.bind ownership_protects.outline_insertEntry fun wait => ?_
        refine Discipline.Outline.ite (fun _ => ?_) fun _ => ?_
        · exact (@ProtectsSafeList.outline_kvGenLbaAt _ _ _ ownership_protects thread
            lbaList.chosen lba poolId pair buf true _
            fun _ => ownership_protects.outline_kvGenLbaProbes).weaken
              fun _ _ _ account => account.batch
        · intro state _ account
          have result : GenLbaHeld thread lbaList.chosen ⟨.ok (), 0, lba, true, buf⟩ state :=
            account
          exact result.batch
      · exact fun state _ account => refused _ _ _ _ state account
      · refine Discipline.Outline.bind
          (owned_kvGenLbaRead_believed call among short some split new before) fun read => ?_
        refine Discipline.Outline.given fun ⟨code, after, ends⟩ => ?_
        subst ends
        exact fun state _ account => refused _ _ _ _ state account

end Searches

/-- What the question to the cache leaves to the account of a batch: a pair that is
written to the remembered address has it chosen. -/
def CachedHeld (thread : ι) (before : BatchState) (key : List UInt8)
    (result : Except NvmErrorCode BatchCached) (state : StoreState ι) : Prop :=
  match result with
  | .error _ => Account thread before.lbaList.chosen state
  | .ok cached =>
      if cached.existsInCache then
        cached.insertLba = true ∧
          Account thread (before.lbaList.insert cached.context.contextEntry.lba key).chosen state
      else
        cached.insertLba = before.insertLba ∧ Account thread before.lbaList.chosen state

/-- What one round of the loop leaves to the account of a batch. -/
def PairHeld (store : NvmKvStore) (poolId : UInt32) (kvIov : List NvmKvIovec) (thread : ι)
    (ended : Except NvmErrorCode Unit × BatchState) (state : StoreState ι) : Prop :=
  match ended.1 with
  | .ok () => ended.2.Prepared store poolId kvIov ∧ Account thread ended.2.lbaList.chosen state
  | .error _ => ∃ more, Account thread (ended.2.lbaList.chosen ++ more) state

/-- Vectors stored in an array start in slots when the old ones and the new ones do. -/
theorem storeIovec_inside {array : Nat → NvmIovec} {place count : Nat} {vectors : List NvmIovec}
    {inside : NvmIovec → Prop} (before : ∀ i, i < place → inside (array i))
    (stored : ∀ vector ∈ vectors, inside vector) (few : count ≤ place + vectors.length) :
    ∀ i, i < count → inside (storeIovec array place vectors i) := by
  intro i counted
  unfold storeIovec
  split_ifs with later
  · have within : i - place < vectors.length := by omega
    rw [List.getD_eq_getElem?_getD, List.getElem?_eq_getElem within, Option.getD_some]
    exact stored _ (List.getElem_mem within)
  · exact before i (by omega)

section Loop

variable {calls : ι → StoreCall} {thread : ι} {poolId : UInt32} {kvIov : List NvmKvIovec}
  {allocation : BatchAllocation} {pair : NvmKvIovec} {state : BatchState}

/-- A pair of a batch holds the address that it was remembered at, besides those of the pairs
before. -/
theorem owned_batchCached (prepared : state.Prepared store poolId kvIov) :
    (ownership store calls).Outline (answer store) thread (batchCached store poolId pair state)
      (Account thread state.lbaList.chosen) (CachedHeld thread state pair.key) := by
  have missed : ∀ (context : NvmKvCacheContext) (held : StoreState ι),
      Account thread state.lbaList.chosen held →
        CachedHeld thread state pair.key (.ok ⟨false, context, state.insertLba⟩) held :=
    fun _ _ account => ⟨rfl, account⟩
  refine Discipline.Outline.ite (fun _ => ?_) fun _ => fun held _ => missed _ held
  refine Discipline.Outline.bind (ownership_protects.readsFreely.outline_reads
    (Program.Calls.perform trivial)
    ownership_protects.stable_account) fun found => ?_
  refine Discipline.Outline.ite (fun _ => ?_) fun _ => fun held _ => missed _ held
  refine Discipline.Outline.ite (fun _ => fun _ _ account => account) fun _ => ?_
  refine Discipline.Outline.ite (fun _ => ?_) fun _ => fun held _ => missed _ held
  split
  · refine Discipline.Outline.bind ownership_protects.outline_insertEntry fun wait => ?_
    refine Discipline.Outline.ite (fun _ => ?_) fun _ => ?_
    · exact Discipline.Outline.bind ownership_protects.outline_deleteLba fun _ =>
        fun held _ => missed _ held
    · intro held _ account
      refine ⟨rfl, ?_⟩
      dsimp only
      rw [LbaList.insert_chosen_new (List.nodup_cons.mp account.1).1]
      exact account.perm (List.perm_append_singleton _ _).symm
  · rename_i chosenKey taken
    intro held _ account
    have member : found.2.contextEntry.lba ∈ state.lbaList.chosen :=
      LbaList.mem_chosen.mpr (by rw [taken]; rfl)
    have some : state.lbaList ≠ [] := by
      intro none
      rw [none] at member
      exact nomatch member
    unfold CachedHeld
    dsimp only
    split_ifs
    · rw [LbaList.insert_chosen_mem member]
      exact ⟨prepared.flag.mpr some, account⟩
    · exact ⟨rfl, account⟩

/-- The vectors of one pair are added to those of the others. -/
theorem owned_batchPrepare {placed : GenLba} {context : NvmKvCacheContext}
    (prepared : ∀ i, i < state.idxTrm →
      OfBatchPut store poolId kvIov state.lbaList.chosen (state.iovecTrm i))
    (written : ∀ i, i < state.idxWrt →
      OfBatchPut store poolId kvIov state.lbaList.chosen (state.iovecWrt i))
    (flag : state.insertLba = true) (among : pair ∈ kvIov)
    (filled : Nvmkv.VectorsFilled store.capabilities pair.key.length pair.value pair.valueLen) :
    (ownership store calls).Outline (answer store) thread
      (batchPrepare store poolId pair
        (writeLayout store.capabilities pair.key.length pair.value pair.valueLen) placed context
        state)
      (Account thread (state.lbaList.insert placed.keyHashVal pair.key).chosen)
      (PairHeld store poolId kvIov thread) := by
  obtain ⟨after, list⟩ : ∃ after, after = state.lbaList.insert placed.keyHashVal pair.key :=
    ⟨_, rfl⟩
  have here : placed.keyHashVal ∈ after.chosen := by
    rw [list]
    exact LbaList.mem_insert_chosen.mpr (Or.inr rfl)
  have grown : ∀ {vector : NvmIovec}, OfBatchPut store poolId kvIov state.lbaList.chosen vector →
      OfBatchPut store poolId kvIov after.chosen vector := by
    rintro vector ⟨lba, member, ofPair⟩
    refine ⟨lba, ?_, ofPair⟩
    rw [list]
    exact LbaList.mem_insert_chosen.mpr (Or.inl member)
  have some : after ≠ [] := by
    rintro rfl
    exact nomatch here
  have refused : ∀ (code : NvmErrorCode) (ended : BatchState) (held : StoreState ι),
      ended.lbaList = after → Account thread after.chosen held →
        PairHeld store poolId kvIov thread (.error code, ended) held := by
    intro code ended held same account
    refine ⟨[], ?_⟩
    rw [List.append_nil, same]
    exact account
  unfold batchPrepare
  dsimp only
  rw [← list]
  split
  · exact fun held _ account => refused _ _ held rfl account
  · rename_i trims trimmed
    refine Discipline.Outline.ite (fun _ => fun held _ account => refused _ _ held rfl account)
      fun _ => ?_
    refine Discipline.Outline.bind (ownership_protects.readsFreely.outline_reads_returns
      (reads_kvProcessForWrite _ _ _ _ _ _) (returns_kvProcessForWrite _ _ _ _ _)
      ownership_protects.stable_account) fun result => ?_
    refine Discipline.Outline.given fun ⟨clock, same⟩ => ?_
    subst same
    have stored : ∀ vector ∈ trims ++ putIovec store poolId pair
        (writeLayout store.capabilities pair.key.length pair.value pair.valueLen) placed.buf clock
        placed.keyHashVal, OfBatchPut store poolId kvIov after.chosen vector := by
      intro vector member
      refine ⟨_, here, pair, among, placed.trimLen, trims, placed.buf, clock, trimmed, ?_⟩
      exact List.cons_subset.mpr ⟨member, List.nil_subset _⟩
    intro held _ account
    refine ⟨⟨?_, ?_, fun _ => some, fun _ => flag⟩, account⟩
    · exact storeIovec_inside (fun i early => grown (prepared i early))
        (fun vector member => stored vector (List.mem_append_left _ member)) le_rfl
    · refine storeIovec_inside (fun i early => grown (written i early))
        (fun vector member => stored vector (List.mem_append_right _ member)) ?_
      rw [putIovec, pairIovec_length]
      exact Nat.add_le_add_left filled _

/-- One round of the loop over the pairs. -/
theorem owned_batchPair (call : calls thread = .kvBatchPut poolId kvIov allocation)
    (filled : (calls thread).VectorsFilled store) {buf : PoolBuf} (among : pair ∈ kvIov)
    (prepared : state.Prepared store poolId kvIov) :
    (ownership store calls).Outline (answer store) thread
      (batchPair store poolId pair buf state) (Account thread state.lbaList.chosen)
      (PairHeld store poolId kvIov thread) := by
  have refused : ∀ (code : NvmErrorCode) (ended : BatchState) (held : StoreState ι),
      ended.lbaList = state.lbaList → (∃ more, Account thread (state.lbaList.chosen ++ more) held) →
        PairHeld store poolId kvIov thread (.error code, ended) held := by
    rintro code ended held same ⟨more, account⟩
    refine ⟨more, ?_⟩
    rw [same]
    exact account
  have alone : ∀ {held : StoreState ι}, Account thread state.lbaList.chosen held →
      ∃ more, Account thread (state.lbaList.chosen ++ more) held :=
    fun account => ⟨[], by rwa [List.append_nil]⟩
  refine Discipline.Outline.ite (fun _ => fun held _ account =>
    refused _ _ held rfl (alone account))
    fun accepted => ?_
  simp only [Bool.or_eq_true, Bool.not_eq_true', not_or, Bool.not_eq_false] at accepted
  have short : pair.key.length ≤ nvmKvMaxKeySize := (of_decide_eq_true accepted.1).2
  refine Discipline.Outline.bind (owned_batchCached prepared) fun result => ?_
  cases result with
  | error code => exact fun held _ account => refused _ _ held rfl (alone account)
  | ok cached =>
    have leaves : ∀ {held : StoreState ι}, CachedHeld thread state pair.key (.ok cached) held →
        ∃ more, Account thread (state.lbaList.chosen ++ more) held := by
      intro held account
      unfold CachedHeld at account
      dsimp only at account
      split_ifs at account with remembered
      · obtain ⟨_, account⟩ := account
        by_cases member : cached.context.contextEntry.lba ∈ state.lbaList.chosen
        · rw [LbaList.insert_chosen_mem member] at account
          exact alone account
        · rw [LbaList.insert_chosen_new member] at account
          exact ⟨_, account⟩
      · exact alone account.2
    dsimp only
    split
    · exact fun held _ account => refused _ _ held rfl (leaves account)
    · rename_i layout unused allocated
      obtain ⟨rfl, _⟩ := layout_of_alloc allocated
      rw [call] at filled
      refine Discipline.Outline.ite
        (fun _ => fun held _ account => refused _ _ held rfl (leaves account)) fun _ => ?_
      have searched : (ownership store calls).Outline (answer store) thread
          (batchLba store poolId pair cached unused state.lbaList)
          (CachedHeld thread state pair.key (.ok cached))
          (BatchLbaHeld thread state.lbaList pair.key) := by
        refine Discipline.Outline.ite (fun remembered => ?_) fun unknown => ?_
        · intro held _ account
          unfold CachedHeld at account
          simp only [if_pos remembered] at account
          exact account
        · have flagged : (ownership store calls).Outline (answer store) thread
              (kvGenLba store poolId pair unused cached.insertLba (some state.lbaList))
              (fun held => Account thread state.lbaList.chosen held ∧
                cached.insertLba = state.insertLba)
              (BatchLbaHeld thread state.lbaList pair.key) :=
            Discipline.Outline.given fun same =>
              owned_batch_kvGenLba call among short (same ▸ prepared.flag)
          refine flagged.strengthen ?_
          intro held _ account
          unfold CachedHeld at account
          simp only [if_neg unknown] at account
          exact ⟨account.2, account.1⟩
      refine Discipline.Outline.bind searched fun placed => ?_
      obtain ⟨retCode, trimLen, keyHashVal, insertLba, region⟩ := placed
      cases retCode with
      | error code => exact fun held _ account => refused _ _ held rfl account
      | ok done =>
        have further : (ownership store calls).Outline (answer store) thread
            (batchPrepare store poolId pair
              (writeLayout store.capabilities pair.key.length pair.value pair.valueLen)
              ⟨.ok done, trimLen, keyHashVal, insertLba, region⟩ cached.context
              { state with
                insertLba := insertLba
                finalIovCount := state.finalIovCount +
                  (writeLayout store.capabilities pair.key.length pair.value
                    pair.valueLen).iovCount })
            (fun held => Account thread (state.lbaList.insert keyHashVal pair.key).chosen held ∧
              insertLba = true)
            (PairHeld store poolId kvIov thread) :=
          Discipline.Outline.given fun flag =>
            owned_batchPrepare prepared.trims prepared.writes flag among (filled pair among)
        exact further.strengthen fun held _ account => ⟨account.2, account.1⟩

/-- The loop over the pairs. Induction follows the pairs that remain. -/
theorem owned_batchPairs (call : calls thread = .kvBatchPut poolId kvIov allocation)
    (filled : (calls thread).VectorsFilled store) {buf : Nat → PoolBuf} {i : Nat}
    {rest : List NvmKvIovec} (among : ∀ pair ∈ rest, pair ∈ kvIov)
    (prepared : state.Prepared store poolId kvIov) :
    (ownership store calls).Outline (answer store) thread
      (batchPairs store poolId buf i rest state) (Account thread state.lbaList.chosen)
      (PairHeld store poolId kvIov thread) := by
  induction rest generalizing i state with
  | nil => exact fun _ _ account => ⟨prepared, account⟩
  | cons pair rest inductionHypothesis =>
    refine Discipline.Outline.bind
      (owned_batchPair call filled (among pair List.mem_cons_self) prepared) fun ended => ?_
    obtain ⟨retCode, after⟩ := ended
    cases retCode with
    | error code => exact fun _ _ account => account
    | ok done =>
      have further : (ownership store calls).Outline (answer store) thread
          (batchPairs store poolId buf (i + 1) rest after)
          (fun held => Account thread after.lbaList.chosen held ∧ after.Prepared store poolId kvIov)
          (PairHeld store poolId kvIov thread) :=
        Discipline.Outline.given fun prepared =>
          inductionHypothesis (fun pair member => among pair (List.mem_cons_of_mem _ member))
            prepared
      exact further.strengthen fun _ _ account => ⟨account.2, account.1⟩

/-- What is handed to the device at the end is for the pairs of the batch. -/
theorem owned_batchFinish (call : calls thread = .kvBatchPut poolId kvIov allocation)
    (prepared : state.Prepared store poolId kvIov) :
    (ownership store calls).Outline (answer store) thread (batchFinish store state)
      (Account thread state.lbaList.chosen) fun _ => Account thread state.lbaList.chosen := by
  have first : ∀ {array : Nat → NvmIovec} {count : Nat}, (∀ i, i < count →
      OfBatchPut store poolId kvIov state.lbaList.chosen (array i)) →
      ∀ vector ∈ firstIovecs array count,
        OfBatchPut store poolId kvIov state.lbaList.chosen vector := by
    intro array count inside vector member
    obtain ⟨i, counted, rfl⟩ := List.mem_map.mp member
    exact inside i (List.mem_range.mp counted)
  have handed : ∀ {iovec : List NvmIovec}, (∀ vector ∈ iovec,
      OfBatchPut store poolId kvIov state.lbaList.chosen vector) →
      (ownership store calls).Outline (answer store) thread (nvmWritev iovec)
        (Account thread state.lbaList.chosen) fun _ => Account thread state.lbaList.chosen := by
    intro iovec ofPairs
    apply owned_nvmWritev
    rw [call]
    exact ofPairs
  have written : (ownership store calls).Outline (answer store) thread (batchWrite store state)
      (Account thread state.lbaList.chosen) fun _ => Account thread state.lbaList.chosen := by
    refine Discipline.Outline.ite (fun _ => handed (first prepared.writes)) fun _ => ?_
    refine Discipline.Outline.bind (handed ?_) fun retCode => ?_
    · intro vector member
      split_ifs at member
      · rcases List.mem_append.mp member with trim | write
        · exact first prepared.trims vector trim
        · exact first prepared.writes vector write
      · exact first prepared.trims vector member
    · cases retCode with
      | error code => exact fun _ _ account => account
      | ok done =>
        exact Discipline.Outline.ite (fun _ => handed (first prepared.writes))
          fun _ => fun _ _ account => account
  refine Discipline.Outline.bind written fun retCode => ?_
  cases retCode with
  | error code => exact fun _ _ account => account
  | ok done =>
    refine Discipline.Outline.ite (fun _ => ?_) fun _ => fun _ _ account => account
    refine Discipline.Outline.bind (owned_cache ?_ fun _ => trivial) fun _ =>
      fun _ _ account => account
    intro before after answered reply
    obtain ⟨_, rfl⟩ := Prod.mk.inj (Option.some.inj reply)
    exact ⟨rfl, rfl⟩

/-- A batch put releases chosen addresses only. An error can leave one address behind. -/
theorem owned_kvBatchPut (call : calls thread = .kvBatchPut poolId kvIov allocation)
    (filled : (calls thread).VectorsFilled store) :
    (ownership store calls).Outline (answer store) thread
      (kvBatchPut store poolId kvIov allocation) (Account thread []) fun _ _ => True := by
  have released : ∀ (ended : BatchState) (result : Except NvmErrorCode Unit),
      (ownership store calls).Outline (answer store) thread
        (do
          batchRelease ended
          pure result)
        (fun held => ∃ more, Account thread (ended.lbaList.chosen ++ more) held)
        fun _ _ => True := by
    intro ended result
    refine Discipline.Outline.chosen fun more => ?_
    have unlocked : (ownership store calls).Outline (answer store) thread (batchRelease ended)
        (Account thread (ended.lbaList.chosen ++ more)) fun _ _ => True := by
      refine Discipline.Outline.ite (fun _ => ?_) fun _ => fun _ _ _ => trivial
      have removed := @ProtectsSafeList.outline_deleteLbas _ _ _
        (@ownership_protects ι store calls) thread more ended.lbaList.lbas
      refine (removed.weaken fun _ _ _ _ => trivial).strengthen ?_
      intro held _ account
      exact account.perm (LbaList.lbas_perm.symm.append_right more)
    exact Discipline.Outline.bind unlocked fun _ => fun _ _ _ => trivial
  refine Discipline.Outline.bind (ownership_protects.readsFreely.outline_reads
    (reads_kvValidatePoolId _)
    ownership_protects.stable_account) fun known => ?_
  refine Discipline.Outline.ite (fun _ => fun _ _ _ => trivial) fun _ => ?_
  refine Discipline.Outline.ite (fun _ => fun _ _ _ => trivial) fun _ => ?_
  cases allocation.iovec with
  | none => exact fun _ _ _ => trivial
  | some arrays =>
    obtain ⟨iovecTrm, iovecWrt⟩ := arrays
    refine Discipline.Outline.bind (owned_batchPairs call filled (fun _ member => member)
      (prepared_initial iovecTrm iovecWrt)) fun result => ?_
    obtain ⟨retCode, ended⟩ := result
    cases retCode with
    | error code => exact released ended _
    | ok done =>
      have further : (ownership store calls).Outline (answer store) thread
          (do
            let retCode ← batchFinish store ended
            batchRelease ended
            pure retCode)
          (fun held => Account thread ended.lbaList.chosen held ∧ ended.Prepared store poolId kvIov)
          fun _ _ => True := by
        refine Discipline.Outline.given fun prepared => ?_
        refine Discipline.Outline.bind (owned_batchFinish call prepared) fun retCode => ?_
        exact (released ended retCode).strengthen fun held _ account =>
          ⟨[], by rwa [List.append_nil]⟩
      exact further.strengthen fun _ _ account => ⟨account.2, account.1⟩

end Loop

/-- Every call keeps the account of its thread. -/
theorem owned_call {calls : ι → StoreCall} {thread : ι}
    (filled : (calls thread).VectorsFilled store) :
    (ownership store calls).Outline (answer store) thread ((calls thread).program store)
      (Account thread []) fun _ _ => True := by
  have ends : ∀ {α : Type} {program : StoreM α} {after : α → StoreState ι → Prop},
      (ownership store calls).Outline (answer store) thread program (Account thread []) after →
      (ownership store calls).Outline (answer store) thread
        (do
          let _ ← program
          pure ()) (Account thread []) fun _ _ => True :=
    fun outline => Discipline.Outline.bind outline fun _ => fun _ _ _ => trivial
  cases call : calls thread with
  | kvPut poolId pair allocation => exact ends (owned_kvPut call filled)
  | kvBatchPut poolId kvIov allocation => exact ends (owned_kvBatchPut call filled)
  | kvDelete poolId key buf allocated => exact ends (owned_kvDelete call)
  | batchDeleteSync iovec deleteFromCache => exact ends (owned_batchDeleteSync call)

/-- In every run whose steps keep the ownership, every batch that a call is about to
hand to the device is for pairs at addresses that it holds, every address that it is about to
remove it holds, and no step takes an address from another call. -/
theorem safe_list_ownership [DecidableEq ι] (store : NvmKvStore) (calls : ι → StoreCall)
    (filled : ∀ thread, (calls thread).VectorsFilled store) {state : StoreState ι}
    (free : ∀ lba, state.safeLbaList lba = none) {config : StoreConfig ι}
    (reached : Config.Reachable (answer store)
      (fun thread op state => (calls thread).KeepsOwnership store thread op state)
      (startCalls store state calls) config) :
    (∀ thread op next, config.threads thread = .call op next →
      op.Owned store (calls thread) thread config.shared) ∧
    ∀ mover op next answered after, config.threads mover = .call op next →
      answer store mover op config.shared = some (answered, after) →
      ∀ thread, thread ≠ mover → ∀ lba, config.shared.safeLbaList lba = some thread →
        after.safeLbaList lba = some thread := by
  have placed : ∀ thread, Discipline.Placed (ownership store calls) (answer store)
      (fun _ _ _ => True) (startCalls store state calls) thread := by
    intro thread
    refine ⟨Account thread [], ⟨List.nodup_nil, fun lba => ?_⟩, owned_call (filled thread)⟩
    change state.safeLbaList lba = some thread ↔ _
    rw [free]
    exact ⟨nofun, nofun⟩
  have owned : ∀ thread op next, config.threads thread = .call op next →
      op.Owned store (calls thread) thread config.shared := fun thread op next pending =>
    @Discipline.sound_checked _ _ _ _ _ (ownership store calls) _ _ _ _ _ trivial placed
      (fun _ _ _ _ _ _ _ _ => trivial) reached _ _ _ pending
  refine ⟨owned, ?_⟩
  intro mover op next answered after pending reply thread apart lba holds
  obtain same | ⟨taken, unlocked, same⟩ | ⟨removed, rfl, same⟩ := answer_safeLbaList reply
  · rwa [same]
  · rw [same, Function.update_apply]
    split_ifs with here
    · rw [here, unlocked] at holds
      exact nomatch holds
    · exact holds
  · have own : config.shared.safeLbaList removed = some mover := owned mover _ next pending
    rw [same, Function.update_apply]
    split_ifs with here
    · rw [here, own] at holds
      exact absurd (Option.some.inj holds).symm apart
    · exact holds

/-- A store that caches one pair. -/
def cachingTerabyte : NvmKvStore := { NvmKvStore.terabyteStore with cacheSize := 184 }

/-- The pair of the key `a` in the default pool is cached at its address. -/
def cachedPair : StoreState Bool :=
  { StoreState.opened (fun _ => none) (fun _ => false) 0 with
    cache := fun _ => ⟨[97], 1, 0, 0, 0, 0, 130334720, 0⟩ }

/-- The deletion of an expired pair at address 0, and a put of the cached key. -/
def putBesideTrim (value : Memory) (valueLen : Nat) (buf : PoolBuf) (thread : Bool) : StoreCall :=
  if thread then .batchDeleteSync [sectorTrim 0] true
  else .kvPut 0 ⟨[97], value, valueLen, 0, 0, true⟩ ⟨buf, some fun _ => sectorTrim 0⟩

/-- A value of 8000 bytes in a buffer that is not aligned. -/
def unalignedPut (thread : Bool) : StoreCall :=
  putBesideTrim ⟨1, fun _ => 0⟩ 8000 ⟨fun _ => 0, false⟩ thread

/-- The put needs a longer buffer than the pool has and there is no memory for one. It is about
to remove the address that the deletion has inserted. -/
theorem put_without_buffer_removes :
    ¬∀ (store : NvmKvStore) (calls : Bool → StoreCall) (state : StoreState Bool)
      (config : StoreConfig Bool), (∀ lba, state.safeLbaList lba = none) →
      Config.Reachable (answer store) (fun _ _ _ => True) (startCalls store state calls) config →
      ∀ thread op next, config.threads thread = .call op next →
        op.Owned store (calls thread) thread config.shared := by
  intro owned
  have begun : Config.Reachable (answer cachingTerabyte) (fun _ _ _ => True)
      (startCalls cachingTerabyte cachedPair unalignedPut)
      (startCalls cachingTerabyte cachedPair unalignedPut) := .start
  have inserted := begun.advance true true _ rfl trivial rfl
  have validated := inserted.advance false PoolStatus.poolInUse _ rfl trivial rfl
  have found := validated.advance false _ _ rfl trivial rfl
  have taken := found.advance false true _ rfl trivial rfl
  have own := owned _ _ _ _ (fun _ => rfl) taken false (.deleteEntry 0) _ rfl
  exact nomatch own

/-- A value of one byte in an aligned buffer, for which every buffer of the pool is long
enough. -/
def shortPut (thread : Bool) : StoreCall :=
  putBesideTrim (poolBuffer fun _ => 0) 1 ⟨fun _ => 0, false⟩ thread

/-- After the deletion has inserted its address and the put the remembered one, each may hand
its batch to the device. -/
theorem safe_list_ownership_both_batches :
    ∃ config : StoreConfig Bool, config.shared.safeLbaList 0 = some true ∧
      config.shared.safeLbaList 130334720 = some false ∧
      (∀ thread, ∃ iovec next, config.threads thread = .call (.batchAtomic iovec) next) ∧
      ∀ thread op next, config.threads thread = .call op next →
        op.Owned cachingTerabyte (shortPut thread) thread config.shared := by
  have filled : ∀ thread, (shortPut thread).VectorsFilled cachingTerabyte := by
    intro thread
    cases thread with
    | true => trivial
    | false =>
      change VectorsFilled cachingTerabyte.capabilities 1 (poolBuffer fun _ => 0) 1
      decide
  have begun : Config.Reachable (answer cachingTerabyte)
      (fun thread op state => (shortPut thread).KeepsOwnership cachingTerabyte thread op state)
      (startCalls cachingTerabyte cachedPair shortPut)
      (startCalls cachingTerabyte cachedPair shortPut) := .start
  have inserted := begun.advance true true _ rfl trivial rfl
  have validated := inserted.advance false PoolStatus.poolInUse _ rfl trivial rfl
  have found := validated.advance false _ _ rfl trivial rfl
  have allocates : (shortPut false).KeepsOwnership cachingTerabyte false (.checkEntry 130334720)
      cachedPair := by
    intro _ code failed
    cases failed
  have taken := found.advance false true _ rfl allocates rfl
  refine ⟨_, rfl, rfl, ?_, (safe_list_ownership cachingTerabyte shortPut filled (fun _ => rfl)
    taken).1⟩
  intro thread
  cases thread with
  | true => exact ⟨_, _, rfl⟩
  | false => exact ⟨_, _, rfl⟩

end Nvmkv
