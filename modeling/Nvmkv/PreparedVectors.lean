import Nvmkv.LonePut
import Nvmkv.RoundTrip
import Nvmkv.SafeListOutlines
import Nvmkv.SearchingCalls

/-!
# What the calls of a store hand to the device

Whatever a put, a batch put or a delete is answered, a vector that it hands to the
device trims, or is one of those prepared for a pair of the call at a probe address of
its key. This holds without a cache, and when as many vectors are prepared for every
pair as are announced; else the batch also has vectors that nobody prepared.

A prepared vector leaves in a sector the header of its pair, or a sector of its value.
-/

namespace Nvmkv

variable {store : NvmKvStore} {poolId : UInt32}

/-- The layout of a pair. -/
abbrev NvmKvIovec.layout (store : NvmKvStore) (pair : NvmKvIovec) : WriteLayout :=
  writeLayout store.capabilities pair.key.length pair.value pair.valueLen

/-- The pairs of a call have accepted lengths. -/
def NvmKvIovec.Valid (store : NvmKvStore) (pair : NvmKvIovec) : Prop :=
  kvValidateKey pair.key = true ∧ kvValidateValue store false pair.valueLen = true

/-- A vector trims, or was prepared for one of some pairs at a probe address. -/
def PreparedFor (store : NvmKvStore) (poolId : UInt32) (pairs : List NvmKvIovec)
    (vector : NvmIovec) : Prop :=
  vector.iovOpcode = .trim ∨
    ∃ pair ∈ pairs, pair.Valid store ∧ ∃ lba ∈ store.probes poolId pair.key, ∃ buf clock,
      vector ∈ putIovec store poolId pair (pair.layout store) buf clock lba

/-- A batch has prepared vectors only. -/
def HandsPrepared (store : NvmKvStore) (poolId : UInt32) (pairs : List NvmKvIovec) :
    StoreOp → Prop
  | .batchAtomic iovec => ∀ vector ∈ iovec, PreparedFor store poolId pairs vector
  | _ => True

/-- The announced vectors of a pair are all filled. -/
abbrev NvmKvIovec.Filled (store : NvmKvStore) (pair : NvmKvIovec) : Prop :=
  VectorsFilled store.capabilities pair.key.length pair.value pair.valueLen

section Content

variable {pairs : List NvmKvIovec} {vector : NvmIovec}

/-- A value sector of a pair: its place behind the address and what is written there. -/
def ValueSector (store : NvmKvStore) (pair : NvmKvIovec) (lba l : Nat) (sector : Region) : Prop :=
  (pair.layout store).userBufferUsage = true ∧
    ∃ i, i < valueSectors store.capabilities pair.valueLen ∧ l = lba + 1 + i ∧
      sector = pair.value.bytes.drop (i * store.sectorSize)

/-- A write vector of a pair leaves in a sector the first sector of the pair, or a sector of
its value. -/
theorem putIovec_content {pair : NvmKvIovec} {buf : Region} {clock lba l : Nat}
    (bounded : pair.valueLen ≤ nvmKvMaxValueSize)
    (written : vector ∈ putIovec store poolId pair (pair.layout store) buf clock lba)
    (covered : Media.Covers store.sectorSize vector l) {sector : Region}
    (left : Media.vectorContent store.sectorSize vector l = some sector) :
    l = lba ∧ sector = firstSector store poolId pair (pair.layout store) buf clock ∨
      ValueSector store pair lba l sector := by
  have limit : (nvmKvMaxValueSize : Nat) = 1047552 := rfl
  obtain ⟨inside, content⟩ := pairIovec_content (pair.layout store) _ pair.value (by omega) lba
    (fun _ => none) written covered
  replace left := content.symm.trans left
  rcases Nat.eq_or_lt_of_le inside.1 with here | behind
  · left
    subst here
    rw [pairWritten_first] at left
    exact ⟨rfl, (Option.some.inj left).symm⟩
  · right
    obtain ⟨i, rfl⟩ : ∃ i, l = lba + 1 + i := ⟨l - (lba + 1), by omega⟩
    cases user : (pair.layout store).userBufferUsage with
    | false =>
      simp only [sectorsWritten, user, Bool.false_eq_true, if_false] at inside
      omega
    | true =>
      simp only [sectorsWritten, user, if_true] at inside
      refine ⟨user, i, by omega, rfl, ?_⟩
      rw [pairWritten, if_pos user, Media.write_inside ⟨by omega, by omega⟩] at left
      rw [← Option.some.inj left, Nat.add_sub_cancel_left]
      rfl

/-- A prepared vector leaves nothing in a sector, the first sector of its pair, or a sector
of its value. -/
theorem PreparedFor.content (prepared : PreparedFor store poolId pairs vector) {l : Nat}
    (covered : Media.Covers store.sectorSize vector l) {sector : Region}
    (left : Media.vectorContent store.sectorSize vector l = some sector) :
    ∃ pair ∈ pairs, pair.Valid store ∧ ∃ lba ∈ store.probes poolId pair.key,
      (l = lba ∧ ∃ buf clock,
        sector = firstSector store poolId pair (pair.layout store) buf clock) ∨
        ValueSector store pair lba l sector := by
  rcases prepared with trim | ⟨pair, member, valid, lba, probed, buf, clock, written⟩
  · rw [Media.vectorContent, trim] at left
    cases left
  · refine ⟨pair, member, valid, lba, probed, ?_⟩
    rcases putIovec_content (of_decide_eq_true valid.2).2.1 written covered left with
      ⟨here, first⟩ | value
    · exact Or.inl ⟨here, buf, clock, first⟩
    · exact Or.inr value

end Content

section Calls

variable {pairs : List NvmKvIovec}

/-- Searching calls hand nothing to the device. -/
theorem handsPrepared_searches {op : StoreOp} (searches : op.Searches) :
    HandsPrepared store poolId pairs op := by
  cases op with
  | batchAtomic iovec => exact (searches.elim id id : False).elim
  | _ => trivial

/-- What searches hands over no batch, and so none that is not prepared. -/
theorem Program.Calls.handsPrepared {α : Type} {program : StoreM α}
    (searches : program.Calls StoreOp.Searches) :
    program.Calls (HandsPrepared store poolId pairs) :=
  searches.mono fun _ => handsPrepared_searches

/-- A batch of prepared vectors may be handed over. -/
theorem handsPrepared_nvmWritev {iovec : List NvmIovec}
    (prepared : ∀ vector ∈ iovec, PreparedFor store poolId pairs vector) :
    (nvmWritev iovec).Calls (HandsPrepared store poolId pairs) := by
  refine Program.Calls.bind (Program.Calls.perform prepared) fun done => ?_
  cases done with
  | true => trivial
  | false => trivial

variable {pair : NvmKvIovec} {lba : Nat}

/-- The reading of an address ends at that address. Both places that take the address read again
after waiting. -/
theorem returns_kvGenLbaRead {rounds : Nat} {insertLba : Bool} {buf : Region} :
    (kvGenLbaRead store poolId pair lba rounds insertLba buf).Returns fun read =>
      ∀ result, read = .returns result → result.keyHashVal = lba := by
  induction rounds generalizing insertLba buf with
  | zero => exact fun absurd => nomatch absurd
  | succ rounds inductionHypothesis =>
    have taken : ∀ (ends : SlotRead) (buf : Region),
        (∀ result, ends = .returns result → result.keyHashVal = lba) →
        (if insertLba = true then pure ends else do
          let wait ← insertEntry lba
          if wait = true then kvGenLbaRead store poolId pair lba rounds true buf
          else pure ends : StoreM SlotRead).Returns fun read =>
            ∀ result, read = .returns result → result.keyHashVal = lba := by
      intro ends buf here
      cases insertLba with
      | true => exact here
      | false =>
        refine Program.Returns.bind fun wait => ?_
        cases wait with
        | true => exact inductionHypothesis
        | false => exact here
    have returned : ∀ retCode trimLen held (buf : Region) result,
        SlotRead.returns ⟨retCode, trimLen, lba, held, buf⟩ = .returns result →
          result.keyHashVal = lba := by
      rintro retCode trimLen held buf result ⟨⟩
      rfl
    have leaves : ∀ held trimLen (buf : Region) result,
        SlotRead.leaves held trimLen buf = .returns result → result.keyHashVal = lba :=
      fun _ _ _ _ wrong => nomatch wrong
    unfold kvGenLbaRead
    refine Program.Returns.bind fun read => ?_
    cases read with
    | error code => exact returned _ _ _ _
    | ok read =>
      dsimp only
      split
      · refine Program.Returns.bind fun expired => ?_
        split
        · exact taken _ _ (returned _ _ _ _)
        · exact returned _ _ _ _
        · split
          · exact taken _ _ (leaves _ _ _)
          · exact returned _ _ _ _
      · cases insertLba with
        | true => exact Program.Returns.bind fun _ => leaves _ _ _
        | false => exact leaves _ _ _

/-- A search that succeeds ends at one of its addresses. -/
theorem returns_kvGenLbaProbes {lbas : List Nat} {insertLba : Bool} {buf : Region} :
    (kvGenLbaProbes store poolId pair lbas insertLba buf).Returns fun placed =>
      placed.retCode = .ok () → placed.keyHashVal ∈ lbas := by
  induction lbas generalizing insertLba buf with
  | nil => exact fun wrong => nomatch wrong
  | cons lba rest inductionHypothesis =>
    have here : ∀ placed : GenLba, placed.keyHashVal = lba →
        placed.retCode = .ok () → placed.keyHashVal ∈ lba :: rest :=
      fun placed same _ => same ▸ List.mem_cons_self
    have read : ∀ held, (kvGenLbaAt store poolId pair lba held buf fun buf =>
        kvGenLbaProbes store poolId pair rest false buf).Returns fun placed =>
          placed.retCode = .ok () → placed.keyHashVal ∈ lba :: rest := by
      intro held
      refine Program.Returns.seq returns_kvGenLbaRead fun read ended => ?_
      split
      · exact here _ (ended _ rfl)
      · exact here _ rfl
      · exact inductionHypothesis.mono fun placed among succeeded =>
          List.mem_cons_of_mem _ (among succeeded)
    unfold kvGenLbaProbes
    refine Program.Returns.bind fun found => ?_
    split
    · refine Program.Returns.bind fun wait => ?_
      cases wait with
      | true => exact read true
      | false => exact here _ rfl
    · exact here _ rfl
    · exact read insertLba

/-- What was not skipped is among the addresses. -/
theorem skipChosen_mem {lbaList : LbaList} {key : List UInt8} (lbas : List Nat) :
    (∀ lba, skipChosen lbaList key lbas = .duplicate lba → lba ∈ lbas) ∧
      ∀ rest, skipChosen lbaList key lbas = .probes rest → ∀ lba ∈ rest, lba ∈ lbas := by
  induction lbas with
  | nil => exact ⟨fun _ wrong => (nomatch wrong), fun _ wrong => (nomatch wrong)⟩
  | cons first lbas inductionHypothesis =>
    cases lbas with
    | nil => exact ⟨fun _ wrong => (nomatch wrong), fun _ wrong => (nomatch wrong)⟩
    | cons second rest =>
      obtain ⟨duplicate, probes⟩ := inductionHypothesis
      rw [skipChosen]
      split
      · refine ⟨fun _ wrong => (nomatch wrong), ?_⟩
        rintro _ ⟨⟩ lba member
        exact member
      · split
        · refine ⟨?_, fun _ wrong => (nomatch wrong)⟩
          rintro _ ⟨⟩
          exact List.mem_cons_self
        · refine ⟨fun lba skipped => List.mem_cons_of_mem _ (duplicate lba skipped), ?_⟩
          intro left skipped lba member
          exact List.mem_cons_of_mem _ (probes left skipped lba member)

/-- An address that is found for a pair is a probe address of its key. -/
theorem returns_kvGenLba {insertLba : Bool} {buf : Region} (lbaList : Option LbaList) :
    (kvGenLba store poolId pair buf insertLba lbaList).Returns fun placed =>
      placed.retCode = .ok () → placed.keyHashVal ∈ store.probes poolId pair.key := by
  unfold kvGenLba
  split
  · exact returns_kvGenLbaProbes
  · rename_i chosen
    obtain ⟨duplicate, probes⟩ :=
      @skipChosen_mem chosen pair.key (store.probes poolId pair.key)
    split
    · rename_i lba skipped
      exact fun _ => duplicate lba skipped
    · exact fun wrong => nomatch wrong
    · rename_i lbas skipped
      exact returns_kvGenLbaProbes.mono fun placed among succeeded =>
        probes lbas skipped _ (among succeeded)

/-- The search for an address makes the calls of a search. -/
theorem searches_kvGenLba {insertLba : Bool} {buf : Region} (lbaList : Option LbaList) :
    (kvGenLba store poolId pair buf insertLba lbaList).Calls StoreOp.Searches := by
  unfold kvGenLba
  split
  · exact searches_kvGenLbaProbes
  · split
    · trivial
    · trivial
    · exact searches_kvGenLbaProbes

section Put

/-- Every vector of a put is prepared. As many are handed over as are announced. -/
theorem handsPrepared_kvPutWrite (noCache : store.cacheSize = 0) {placed : GenLba}
    {memory : Option (Nat → NvmIovec)} {context : NvmKvCacheContext} (listed : pair ∈ pairs)
    (valid : pair.Valid store) (filled : pair.Filled store)
    (probed : placed.keyHashVal ∈ store.probes poolId pair.key) :
    (kvPutWrite store poolId pair (pair.layout store) placed memory context).Calls
      (HandsPrepared store poolId pairs) := by
  unfold kvPutWrite
  cases memory with
  | none => trivial
  | some memory =>
    dsimp only
    obtain ⟨_, bounded, -⟩ := of_decide_eq_true valid.2
    split
    · trivial
    · rename_i trims trimmed
      refine (Program.Yields.of_calls
        (reads_kvProcessForWrite poolId pair (pair.layout store) placed.buf
          (putExpiry store pair) placed.keyHashVal).searches.handsPrepared
        (returns_kvProcessForWrite poolId pair (pair.layout store) placed.buf
          placed.keyHashVal)).bind_calls ?_
      rintro _ ⟨clock, rfl⟩
      have enough : (pair.layout store).iovCount ≤ (trims ++ putIovec store poolId pair
          (pair.layout store) placed.buf clock placed.keyHashVal).length := by
        have counted : (pair.layout store).iovCount ≤
          vectorsFilled store.capabilities (pair.layout store) pair.valueLen := filled
        rw [List.length_append, putIovec, pairIovec_length]
        omega
      dsimp only
      rw [handedIovec_take memory _ enough]
      refine Program.Calls.bind (handsPrepared_nvmWritev ?_) fun retCode => ?_
      · intro vector taken
        rcases List.mem_append.mp (List.mem_of_mem_take taken) with trim | written
        · exact Or.inl (kvProcessForTrim_starts bounded trimmed trim).2
        · exact Or.inr ⟨pair, listed, valid, _, probed, _, clock, written⟩
      · have none : ¬0 < store.cacheSize := by omega
        cases retCode with
        | error code => trivial
        | ok done =>
          dsimp only
          rw [if_neg none]
          trivial

/-- A put that has no cache to ask hands over prepared vectors only. -/
theorem handsPrepared_kvPut (noCache : store.cacheSize = 0) {allocation : Allocation}
    (filled : pair.Filled store) :
    (kvPut store poolId pair allocation).Calls (HandsPrepared store poolId [pair]) := by
  have body : (kvPutBody store poolId pair allocation).Calls
      (HandsPrepared store poolId [pair]) := by
    unfold kvPutBody
    refine Program.Calls.bind (reads_kvValidatePoolId _).searches.handsPrepared fun known => ?_
    split
    · trivial
    · rename_i accepted
      have valid : pair.Valid store := by
        simp only [Bool.or_eq_true, Bool.not_eq_true', not_or, Bool.not_eq_false] at accepted
        exact ⟨accepted.1.2, accepted.2⟩
      rw [if_neg (by omega)]
      unfold kvPutPlace
      split
      · trivial
      · rename_i layout buf allocated
        obtain ⟨rfl, _⟩ := layout_of_alloc allocated
        refine (Program.Yields.of_calls (searches_kvGenLba none).handsPrepared
          (returns_kvGenLba none)).bind_calls fun placed probed => ?_
        dsimp only
        split
        · trivial
        · rename_i succeeded
          exact handsPrepared_kvPutWrite noCache List.mem_cons_self valid filled (probed succeeded)
  refine Program.Calls.bind body fun ends => ?_
  split
  · exact Program.Calls.bind (Program.Calls.perform trivial) fun _ => trivial
  · trivial

end Put

section BatchPut

/-- What the loop over the pairs of a batch has prepared. -/
structure BatchPrepared (store : NvmKvStore) (poolId : UInt32) (pairs : List NvmKvIovec)
    (state : BatchState) : Prop where
  trims : ∀ i, i < state.idxTrm → PreparedFor store poolId pairs (state.iovecTrm i)
  writes : ∀ i, i < state.idxWrt → PreparedFor store poolId pairs (state.iovecWrt i)

/-- An array has what it had before a place, and the stored vectors from there on. -/
theorem storeIovec_cases {array : Nat → NvmIovec} {place i : Nat} {vectors : List NvmIovec}
    (inside : i < place + vectors.length) :
    i < place ∧ storeIovec array place vectors i = array i ∨
      storeIovec array place vectors i ∈ vectors := by
  rw [storeIovec]
  split
  · right
    have stored : i - place < vectors.length := by omega
    rw [List.getD_eq_getElem?_getD, List.getElem?_eq_getElem stored, Option.getD_some]
    exact List.getElem_mem stored
  · left
    exact ⟨by omega, rfl⟩

/-- The vectors of one more pair are prepared. No place is counted that is not filled. -/
theorem yields_batchPrepare {layout : WriteLayout} {placed : GenLba}
    {context : NvmKvCacheContext} {state : BatchState} (listed : pair ∈ pairs)
    (valid : pair.Valid store) (filled : pair.Filled store) (laidOut : layout = pair.layout store)
    (probed : placed.keyHashVal ∈ store.probes poolId pair.key)
    (prepared : BatchPrepared store poolId pairs state) :
    (batchPrepare store poolId pair layout placed context state).Yields
      (HandsPrepared store poolId pairs) fun result =>
        result.1 = .ok () → BatchPrepared store poolId pairs result.2 := by
  subst laidOut
  obtain ⟨_, bounded, -⟩ := of_decide_eq_true valid.2
  unfold batchPrepare
  dsimp only
  split
  · exact fun wrong => nomatch wrong
  · rename_i trims trimmed
    have trimmedToo : ∀ i, i < state.idxTrm + trims.length →
        PreparedFor store poolId pairs (storeIovec state.iovecTrm state.idxTrm trims i) := by
      intro i inside
      rcases @storeIovec_cases state.iovecTrm _ _ _ inside with ⟨before, same⟩ | stored
      · rw [same]
        exact prepared.trims i before
      · exact Or.inl (kvProcessForTrim_starts bounded trimmed stored).2
    split
    · exact fun wrong => nomatch wrong
    · refine (Program.Yields.of_calls
        (reads_kvProcessForWrite poolId pair (pair.layout store) placed.buf
          (putExpiry store pair) placed.keyHashVal).searches.handsPrepared
        (returns_kvProcessForWrite poolId pair (pair.layout store) placed.buf
          placed.keyHashVal)).bind ?_
      rintro _ ⟨clock, rfl⟩ _
      refine ⟨trimmedToo, ?_⟩
      intro i inside
      have counted : (pair.layout store).iovCount ≤
          (putIovec store poolId pair (pair.layout store) placed.buf clock
            placed.keyHashVal).length := by
        rw [putIovec, pairIovec_length]
        exact filled
      rcases @storeIovec_cases state.iovecWrt _ _ _
        (Nat.lt_of_lt_of_le inside (Nat.add_le_add_left counted _)) with ⟨before, same⟩ | stored
      · dsimp only
        rw [same]
        exact prepared.writes i before
      · exact Or.inr ⟨pair, listed, valid, _, probed, _, clock, stored⟩

/-- One more pair of a batch hands over nothing, and leaves prepared vectors when it succeeds. -/
theorem yields_batchPair (noCache : store.cacheSize = 0) {buf : PoolBuf}
    {state : BatchState} (listed : pair ∈ pairs) (filled : pair.Filled store)
    (prepared : BatchPrepared store poolId pairs state) :
    (batchPair store poolId pair buf state).Yields (HandsPrepared store poolId pairs)
      fun result => result.1 = .ok () → BatchPrepared store poolId pairs result.2 := by
  unfold batchPair
  split
  · exact fun wrong => nomatch wrong
  · rename_i accepted
    have valid : pair.Valid store := by
      simp only [Bool.or_eq_true, Bool.not_eq_true', not_or, Bool.not_eq_false] at accepted
      exact accepted
    have cached : batchCached store poolId pair state =
        pure (.ok ⟨false, .zero, state.insertLba⟩) := if_neg (by omega)
    rw [cached]
    dsimp only [Program.pure_eq, Program.done_bind]
    split
    · exact fun wrong => nomatch wrong
    · rename_i layout taken allocated
      obtain ⟨laidOut, _⟩ := layout_of_alloc allocated
      split
      · exact fun wrong => nomatch wrong
      · refine (Program.Yields.of_calls (searches_kvGenLba (some state.lbaList)).handsPrepared
          (returns_kvGenLba (some state.lbaList))).bind fun placed probed => ?_
        split
        · exact fun wrong => nomatch wrong
        · rename_i succeeded
          exact yields_batchPrepare listed valid filled laidOut (probed succeeded)
            ⟨prepared.trims, prepared.writes⟩

/-- All pairs of a batch are prepared one after the other. Induction follows the pairs. -/
theorem yields_batchPairs (noCache : store.cacheSize = 0) {buf : Nat → PoolBuf}
    {left : List NvmKvIovec} (listed : ∀ pair ∈ left, pair ∈ pairs)
    (filled : ∀ pair ∈ left, pair.Filled store) {i : Nat} {state : BatchState}
    (prepared : BatchPrepared store poolId pairs state) :
    (batchPairs store poolId buf i left state).Yields (HandsPrepared store poolId pairs)
      fun result => result.1 = .ok () → BatchPrepared store poolId pairs result.2 := by
  induction left generalizing i state with
  | nil => exact fun _ => prepared
  | cons pair rest inductionHypothesis =>
    unfold batchPairs
    refine (yields_batchPair noCache (listed pair List.mem_cons_self)
      (filled pair List.mem_cons_self) prepared).bind fun result grown => ?_
    split
    · exact fun wrong => nomatch wrong
    · exact inductionHypothesis (fun other member => listed other (List.mem_cons_of_mem _ member))
        (fun other member => filled other (List.mem_cons_of_mem _ member)) (grown rfl)

/-- A vector that is taken from the array has a place below the count. -/
theorem mem_firstIovecs {array : Nat → NvmIovec} {count : Nat} {vector : NvmIovec}
    (member : vector ∈ firstIovecs array count) : ∃ i, i < count ∧ array i = vector := by
  simpa only [firstIovecs, List.mem_map, List.mem_range] using member

/-- The batches of a prepared state have prepared vectors only. -/
theorem handsPrepared_batchWrite {state : BatchState}
    (prepared : BatchPrepared store poolId pairs state) :
    (batchWrite store state).Calls (HandsPrepared store poolId pairs) := by
  have writes : ∀ vector ∈ firstIovecs state.iovecWrt state.idxWrt,
      PreparedFor store poolId pairs vector := by
    intro vector member
    obtain ⟨i, inside, rfl⟩ := mem_firstIovecs member
    exact prepared.writes i inside
  have trims : ∀ vector ∈ firstIovecs state.iovecTrm state.idxTrm,
      PreparedFor store poolId pairs vector := by
    intro vector member
    obtain ⟨i, inside, rfl⟩ := mem_firstIovecs member
    exact prepared.trims i inside
  unfold batchWrite
  dsimp only
  split
  · exact handsPrepared_nvmWritev writes
  · refine Program.Calls.bind (handsPrepared_nvmWritev ?_) fun retCode => ?_
    · intro vector member
      split at member
      · exact (List.mem_append.mp member).elim (trims vector) (writes vector)
      · exact trims vector member
    · split
      · trivial
      · exact Program.Calls.ite (handsPrepared_nvmWritev writes) trivial

/-- A batch put that has no cache to ask hands over prepared vectors only. -/
theorem handsPrepared_kvBatchPut (noCache : store.cacheSize = 0) {allocation : BatchAllocation}
    (filled : ∀ pair ∈ pairs, pair.Filled store) :
    (kvBatchPut store poolId pairs allocation).Calls (HandsPrepared store poolId pairs) := by
  have released : ∀ (state : BatchState) (retCode : Except NvmErrorCode Unit),
      (do batchRelease state; pure retCode : StoreM (Except NvmErrorCode Unit)).Calls
        (HandsPrepared store poolId pairs) := by
    intro state retCode
    refine Program.Calls.bind ?_ fun _ => trivial
    unfold batchRelease
    split
    · exact (searches_deleteLbas _).handsPrepared
    · trivial
  unfold kvBatchPut
  refine Program.Calls.bind (reads_kvValidatePoolId _).searches.handsPrepared fun known => ?_
  split
  · trivial
  · split
    · trivial
    · split
      · trivial
      · rename_i iovecTrm iovecWrt _
        have initial : BatchPrepared store poolId pairs (.initial iovecTrm iovecWrt) :=
          ⟨fun _ none => absurd none (Nat.not_lt_zero _),
            fun _ none => absurd none (Nat.not_lt_zero _)⟩
        refine (yields_batchPairs noCache (fun _ member => member) filled initial).bind_calls
          fun result prepared => ?_
        split
        · exact released _ _
        · refine Program.Calls.bind ?_ fun retCode => released _ _
          unfold batchFinish
          refine Program.Calls.bind (handsPrepared_batchWrite (prepared rfl)) fun retCode => ?_
          split
          · trivial
          · rw [if_neg (by omega)]
            trivial

end BatchPut

section Delete

/-- The vectors that trim a range are prepared for any pairs. Induction is on the fuel. -/
theorem handsPrepared_deleteRangeLoop {delLba fuel remaining totalIovs : Nat} :
    (deleteRangeLoop store.capabilities delLba fuel remaining totalIovs).Calls
      (HandsPrepared store poolId pairs) := by
  induction fuel generalizing remaining totalIovs with
  | zero => exact reads_neverReturns.searches.handsPrepared
  | succ fuel inductionHypothesis =>
    unfold deleteRangeLoop
    refine Program.Calls.bind (handsPrepared_nvmWritev ?_) fun retCode => ?_
    · exact fun vector member => Or.inl (trims_deleteBatch member)
    · split
      · trivial
      · split
        · trivial
        · exact inductionHypothesis

/-- A delete trims only. -/
theorem handsPrepared_kvDelete (noCache : store.cacheSize = 0) {key : List UInt8}
    {buf : Option Region} {allocated : Bool} :
    (kvDelete store poolId key buf allocated).Calls (HandsPrepared store poolId pairs) := by
  have release : ∀ lba (retCode : Except NvmErrorCode Unit),
      (do let _ ← deleteLbaFromSafeList lba; pure retCode :
        StoreM (Except NvmErrorCode Unit)).Calls (HandsPrepared store poolId pairs) :=
    fun lba retCode => Program.Calls.bind (Program.Calls.perform trivial) fun _ => trivial
  have trim : ∀ lba, (kvDeleteTrim store lba allocated).Calls
      (HandsPrepared store poolId pairs) := by
    intro lba
    refine Program.Calls.bind ?_ fun retCode => release lba retCode
    unfold deleteRange
    split
    · exact handsPrepared_deleteRangeLoop
    · trivial
  unfold kvDelete
  refine Program.Calls.bind (reads_kvValidatePoolId _).searches.handsPrepared fun known => ?_
  split
  · trivial
  · unfold kvDeleteSync
    rw [if_neg (by omega)]
    unfold kvDeleteSearch
    split
    · trivial
    · refine Program.Calls.bind (reads_kvReadMedia _ _ _ _ _ _).searches.handsPrepared
        fun read => ?_
      split
      · trivial
      · refine Program.Calls.bind (searches_insertEntry _).handsPrepared fun wait => ?_
        split
        · refine Program.Calls.bind (reads_kvReadMedia _ _ _ _ _ _).searches.handsPrepared
            fun again => ?_
          split
          · exact release _ _
          · exact trim _
        · exact trim _

end Delete

end Calls

end Nvmkv
