import Nvmkv.DeviceSearch
import Nvmkv.PairExtents
import Nvmkv.PreparedVectors
import Nvmkv.BatchOwnership
import Nvmkv.UniqueKeys

/-!
# What is placed is found, and nothing is overwritten

A put writes to an address that its search chose, and a lookup finds the pair only if
it comes by there. The search for an address and the reading of a key go along the
same eight addresses: a reading that does not find its key has looked at every one of
them. This holds for the search of a batch as well, which starts behind the addresses
that the batch has chosen already.

The search stops at the first address that has a pair of the key or a window without
a mapped sector. When it stops at a window, the extent of the pair lies within it: no
pair of an accepted length has more sectors than a window.
-/

namespace Nvmkv

variable {ι : Type}

/-- The address that a call looks at: the start of a range that is searched, or of what
is read. -/
def StoreOp.looksAt : StoreOp → Option Nat
  | .rangeExists search => some search.startLba
  | .readv (vector :: _) => some vector.iovLba
  | _ => none

/-- A run of a program looks at an address. -/
def Examines {α : Type} (store : NvmKvStore) (thread : ι) (program : StoreM α)
    (state : StoreState ι) (lba : Nat) : Prop :=
  ∃ op ∈ program.asked (answer store thread) state, op.looksAt = some lba

section Readings

variable {store : NvmKvStore} {thread : ι}

/-- Programs in a row examine an address in the first one, or in the second one from where the first
one ends. -/
theorem examines_bind {α β : Type} {program : StoreM α} {rest : α → StoreM β}
    {state : StoreState ι} {lba : Nat} :
    Examines store thread (program >>= rest) state lba ↔
      Examines store thread program state lba ∨ ∃ result reached,
        program.run (answer store thread) state = some (result, reached) ∧
          Examines store thread (rest result) reached lba := by
  constructor
  · rintro ⟨op, member, looks⟩
    rcases Program.mem_asked_bind.mp member with here | ⟨result, reached, ran, later⟩
    · exact Or.inl ⟨op, here, looks⟩
    · exact Or.inr ⟨result, reached, ran, op, later, looks⟩
  · rintro (⟨op, here, looks⟩ | ⟨result, reached, ran, op, later, looks⟩)
    · exact ⟨op, Program.mem_asked_bind.mpr (Or.inl here), looks⟩
    · exact ⟨op, Program.mem_asked_bind.mpr (Or.inr ⟨result, reached, ran, later⟩), looks⟩

/-- A program that has returned looks at nothing. -/
theorem examines_pure {α : Type} {result : α} {state : StoreState ι} {lba : Nat} :
    ¬Examines store thread (pure result : StoreM α) state lba := by
  rintro ⟨op, none, _⟩
  cases none

/-- A query looks at the start of its range. -/
theorem examines_kvRangeExists {search : NvmBlockRange} {state : StoreState ι} {lba : Nat} :
    Examines store thread (kvRangeExists search) state lba ↔ search.startLba = lba := by
  unfold kvRangeExists
  rw [examines_bind]
  constructor
  · rintro (⟨op, member, looks⟩ | ⟨found, reached, ran, later⟩)
    · obtain rfl := List.mem_singleton.mp member
      exact Option.some.inj looks
    · rw [run_nvmRangeExists] at ran
      cases ran
      exact absurd later examines_pure
  · intro here
    exact Or.inl ⟨_, List.mem_cons_self, congrArg some here⟩

/-- A reading that gets as far as the device looks at its first vector's address. -/
theorem examines_nvmReadv {iovec : List NvmIovec} {vector : NvmIovec} {more : List NvmIovec}
    (first : iovec = vector :: more) {state reached : StoreState ι}
    {read : Nat × List Region}
    (ran : (nvmReadv store iovec).run (answer store thread) state = some (.ok read, reached))
    {lba : Nat} :
    Examines store thread (nvmReadv store iovec) state lba ↔ vector.iovLba = lba := by
  subst first
  unfold nvmReadv at ran ⊢
  split_ifs at ran ⊢
  · cases ran
  · cases ran
  · rw [examines_bind]
    constructor
    · rintro (⟨op, member, looks⟩ | ⟨buffers, after, asked, later⟩)
      · obtain rfl := List.mem_singleton.mp member
        exact Option.some.inj looks
      · rw [run_preadv] at asked
        cases asked
        exact absurd later examines_pure
    · intro here
      exact Or.inl ⟨_, List.mem_cons_self, congrArg some here⟩

/-- Every list of vectors that a reading hands over starts with the header's. -/
theorem readIovec_cons (store : NvmKvStore) (buffers : ReadBuffers) (lba : Nat) :
    ∃ more, readIovec store buffers lba =
      ⟨poolBuffer buffers.buf, store.sectorSize, lba, .write⟩ :: more := by
  unfold readIovec
  split
  · exact ⟨_, rfl⟩
  · exact ⟨_, rfl⟩

/-- A reading that fails does not say that the key is not there. -/
theorem run_nvmReadv_code {iovec : List NvmIovec} {code : NvmErrorCode}
    {state reached : StoreState ι}
    (ran : (nvmReadv store iovec).run (answer store thread) state = some (.error code, reached)) :
    code ≠ .objectNotFound := by
  unfold nvmReadv at ran
  split_ifs at ran
  · cases ran
    exact NvmErrorCode.noConfusion
  · cases ran
    exact NvmErrorCode.noConfusion
  · rw [Program.run_bind, run_preadv] at ran
    cases ran

/-- What is looked at on the way from one address to the next ones when no pair of the
key is found: this address and what the next ones look at. -/
theorem examines_kvReadMediaAt {poolId : UInt32} {key : List UInt8} {lba : Nat}
    {buffers : ReadBuffers} {next : ReadBuffers → StoreM (Except NvmErrorCode MediaRead)}
    {later : List Nat}
    (further : ∀ buffers state after,
      (next buffers).run (answer store thread) state = some (.error .objectNotFound, after) →
        ∀ other, Examines store thread (next buffers) state other ↔ other ∈ later)
    {state after : StoreState ι}
    (ran : (kvReadMediaAt store poolId key lba buffers next).run (answer store thread) state =
      some (.error .objectNotFound, after)) (other : Nat) :
    Examines store thread (kvReadMediaAt store poolId key lba buffers next) state other ↔
      other = lba ∨ other ∈ later := by
  unfold kvReadMediaAt at ran ⊢
  obtain ⟨more, vectors⟩ := readIovec_cons store buffers lba
  rw [Program.run_bind] at ran
  obtain ⟨⟨read, between⟩, first, second⟩ := Option.bind_eq_some_iff.mp ran
  cases read with
  | error code =>
    cases second
    exact absurd rfl (run_nvmReadv_code first)
  | ok read =>
    obtain ⟨readLen, regions⟩ := read
    dsimp only at second
    split_ifs at second with matched
    · cases second
    · rw [examines_bind, examines_nvmReadv vectors first]
      constructor
      · rintro (here | ⟨result, reached, again, looks⟩)
        · exact Or.inl here.symm
        · rw [first] at again
          cases again
          dsimp only at looks
          rw [if_neg matched] at looks
          exact Or.inr ((further _ _ _ second other).mp looks)
      · rintro (here | member)
        · exact Or.inl here.symm
        · refine Or.inr ⟨_, _, first, ?_⟩
          dsimp only
          rw [if_neg matched]
          exact (further _ _ _ second other).mpr member

/-- A reading that does not find its key has looked at all of the addresses and at no
others. Induction follows the addresses. -/
theorem examines_kvReadMediaProbes {poolId : UInt32} {key : List UInt8} {valueLen : Nat}
    {readExact : Bool} {lbas : List Nat} {buffers : ReadBuffers} {state after : StoreState ι}
    (ran : (kvReadMediaProbes store poolId key valueLen readExact lbas buffers).run
      (answer store thread) state = some (.error .objectNotFound, after)) (other : Nat) :
    Examines store thread (kvReadMediaProbes store poolId key valueLen readExact lbas buffers)
      state other ↔ other ∈ lbas := by
  induction lbas generalizing buffers state after other with
  | nil =>
    constructor
    · exact fun looks => absurd looks examines_pure
    · intro none
      cases none
  | cons lba rest inductionHypothesis =>
    rw [List.mem_cons]
    unfold kvReadMediaProbes at ran ⊢
    by_cases exact : readExact = true ∧ valueLen ≠ 0
    · rw [if_pos exact] at ran ⊢
      rw [Program.run_bind, run_kvRangeExists, Option.bind_some] at ran
      by_cases empty : (state.media.rangeExists ⟨lba, store.maxSearchRange⟩).length = 0
      · rw [if_pos empty] at ran
        rw [examines_bind, examines_kvRangeExists, run_kvRangeExists, if_pos empty]
        constructor
        · rintro (here | ⟨_, _, same, looks⟩)
          · exact Or.inl here.symm
          · cases same
            exact Or.inr ((inductionHypothesis ran other).mp looks)
        · rintro (here | member)
          · exact Or.inl here.symm
          · exact Or.inr ⟨_, _, rfl, (inductionHypothesis ran other).mpr member⟩
      · rw [if_neg empty] at ran
        have read := examines_kvReadMediaAt (fun _ _ _ => inductionHypothesis) ran other
        rw [examines_bind, examines_kvRangeExists, run_kvRangeExists, if_neg empty]
        constructor
        · rintro (here | ⟨_, _, same, looks⟩)
          · exact Or.inl here.symm
          · cases same
            exact read.mp looks
        · rintro (here | member)
          · exact Or.inl here.symm
          · exact Or.inr ⟨_, _, rfl, read.mpr (Or.inr member)⟩
    · rw [if_neg exact] at ran ⊢
      exact examines_kvReadMediaAt (fun _ _ _ => inductionHypothesis) ran other

end Readings

/-- An address that a put may take: its window is unmapped or it has a pair of the key. -/
def suits (store : NvmKvStore) (media : Media) (poolId : UInt32) (key : List UInt8)
    (lba : Nat) : Bool :=
  windowFree store media lba || holds store media poolId key lba

section Searches

variable {store : NvmKvStore} {media : Media} {poolId : UInt32} {pair : NvmKvIovec}

/-- The search of a caller who is alone chooses the first address that suits, unless it
is refused there, and fails when there is none. -/
theorem place_suits (clock : Nat) (lbas : List Nat) (buf : Region) :
    (((place store clock media poolId pair.key pair.replace lbas).result store media poolId pair
        buf).retCode = .ok () →
      lbas.find? (suits store media poolId pair.key) =
        some ((place store clock media poolId pair.key pair.replace lbas).result store media poolId
          pair buf).keyHashVal) ∧
    (((place store clock media poolId pair.key pair.replace lbas).result store media poolId pair
        buf).retCode = .error .internalFailure ↔
      lbas.find? (suits store media poolId pair.key) = none) := by
  induction lbas with
  | nil =>
    constructor
    · intro wrong
      cases wrong
    · exact iff_of_true rfl rfl
  | cons lba rest inductionHypothesis =>
    rw [place]
    by_cases free : windowFree store media lba = true
    · have here : suits store media poolId pair.key lba = true := by rw [suits, free, Bool.true_or]
      rw [if_pos free, List.find?_cons_of_pos here]
      constructor
      · exact fun _ => rfl
      · constructor <;> intro wrong <;> cases wrong
    · by_cases held : holds store media poolId pair.key lba = true
      · have here : suits store media poolId pair.key lba = true := by
          rw [suits, held, Bool.or_true]
        rw [if_neg free, if_pos held, List.find?_cons_of_pos here]
        split_ifs
        · constructor
          · exact fun _ => rfl
          · constructor <;> intro wrong <;> cases wrong
        · constructor
          · exact fun _ => rfl
          · constructor <;> intro wrong <;> cases wrong
        · constructor
          · intro wrong
            cases wrong
          · constructor <;> intro wrong <;> cases wrong
      · have other : ¬suits store media poolId pair.key lba = true := by
          rw [suits, Bool.or_eq_true]
          exact fun either => either.elim free held
        rw [if_neg free, if_neg held, List.find?_cons_of_neg other]
        exact inductionHypothesis

/-- A search that succeeds ends at one of its addresses, which suits. Induction follows
the addresses. -/
theorem searchWith_success {outcome : Nat → Bool} {clock operations : Nat} {insertLba : Bool}
    {lbas : List Nat}
    (success : (searchWith store outcome clock media poolId pair insertLba operations
      lbas).retCode = .ok ()) :
    suits store media poolId pair.key
      (searchWith store outcome clock media poolId pair insertLba operations lbas).keyHashVal =
        true := by
  induction lbas generalizing insertLba operations with
  | nil => cases success
  | cons lba rest inductionHypothesis =>
    rw [searchWith] at success ⊢
    dsimp only at success ⊢
    by_cases fails : outcome operations = false
    · rw [if_pos fails] at success
      cases success
    rw [if_neg fails] at success ⊢
    by_cases free : windowFree store media lba = true
    · rw [if_pos free, suits, free, Bool.true_or]
    rw [if_neg free] at success ⊢
    by_cases failing : outcome (operations + 1) = false
    · rw [if_pos failing] at success
      cases success
    rw [if_neg failing] at success ⊢
    by_cases held : holds store media poolId pair.key lba = true
    · have here : suits store media poolId pair.key lba = true := by rw [suits, held, Bool.or_true]
      rw [if_pos held] at success ⊢
      by_cases expired : pairExpired store clock (storedHeader store media lba) = true
      · rwa [if_pos expired]
      rw [if_neg expired] at success ⊢
      by_cases replace : pair.replace = true
      · rwa [if_pos replace]
      · rw [if_neg replace] at success
        cases success
    · rw [if_neg held] at success ⊢
      exact inductionHypothesis success

end Searches

/-- An address that a search chooses with success is one of the eight at which a lookup
that does not find the key has looked, whatever the batch has chosen before. Without a
batch it is the first one that suits, and the search fails for want of an address just
when none does. -/
theorem placement_findable (store : NvmKvStore) (thread : ι) (poolId : UInt32)
    (pair : NvmKvIovec) (buf : Region) (state : StoreState ι)
    (accepted : kvValidateKey pair.key = true) :
    (∀ (insertLba : Bool) (lbaList : Option LbaList) (placed : GenLba) (after : StoreState ι),
      (kvGenLba store poolId pair buf insertLba lbaList).run (answer store thread) state =
        some (placed, after) → placed.retCode = .ok () →
      ∃ i, i < maxCollision ∧ placed.keyHashVal = store.probeLba poolId pair.key i ∧
        ∀ (reader : ι) (value : Memory) (valueLen : Nat) (header : Region) (readExact : Bool)
          (before ended : StoreState ι),
          (kvReadMedia store poolId pair.key value valueLen header readExact).run
            (answer store reader) before = some (.error .objectNotFound, ended) →
          Examines store reader (kvReadMedia store poolId pair.key value valueLen header readExact)
            before placed.keyHashVal) ∧
    ((∀ lba, state.safeLbaList lba = none) →
      ∃ placed after, (kvGenLba store poolId pair buf false none).run (answer store thread) state =
          some (placed, after) ∧
        (placed.retCode = .ok () → (store.probes poolId pair.key).find?
          (suits store state.media poolId pair.key) = some placed.keyHashVal) ∧
        (placed.retCode = .error .internalFailure ↔ (store.probes poolId pair.key).find?
          (suits store state.media poolId pair.key) = none)) := by
  constructor
  · intro insertLba lbaList placed after ran success
    have member : placed.keyHashVal ∈ store.probes poolId pair.key :=
      (returns_kvGenLba lbaList).of_run ran success
    obtain ⟨i, probed, same⟩ := mem_probes.mp member
    refine ⟨i, probed, same.symm, ?_⟩
    intro reader value valueLen header readExact before ended read
    exact (examines_kvReadMediaProbes read placed.keyHashVal).mpr member
  · intro free
    obtain ⟨read, ran⟩ := @run_kvGenLbaProbes _ store thread state poolId pair
      (store.probes poolId pair.key) buf (of_decide_eq_true accepted).2 fun lba _ => free lba
    exact ⟨_, _, ran, place_suits _ _ read⟩

/-- A store that has the front key at the first address of the key behind it, and nothing
else. -/
def frontState : StoreState Unit :=
  openedTerabyte (Function.update (fun _ => none) frontLba
    (some (firstSector NvmKvStore.terabyteStore 0 (bytePair frontKey)
      ((bytePair frontKey).layout NvmKvStore.terabyteStore) (fun _ => 0) 0)))

/-- There the key behind it has a stranger at its first address, a free window at the second
one, and is held at no address. -/
theorem frontState_addresses :
    windowFree NvmKvStore.terabyteStore frontState.media frontLba = false ∧
      windowFree NvmKvStore.terabyteStore frontState.media behindLba = true ∧
      ∀ lba, holds NvmKvStore.terabyteStore frontState.media 0 behindKey lba = false := by
  have heldFront : holds NvmKvStore.terabyteStore frontState.media 0 frontKey frontLba = true :=
    holds_written rfl (by decide) (by decide)
  refine ⟨windowFree_mapped (mapped_of_holds (by decide) heldFront),
    behindLba_free (windowFree_iff.mpr fun _ _ => rfl), fun lba => ?_⟩
  by_cases first : lba = frontLba
  · rw [first, Bool.eq_false_iff]
    exact fun own => absurd (headerMatches_unique heldFront own).2 (by decide)
  · refine holds_unmapped (by decide) ?_
    change (Function.update (fun _ => none : Media) frontLba _ : Media) lba = none
    rw [Function.update_of_ne first]

/-- A search that passes by the first of two addresses and succeeds at the second one, and
the reading of the key, which finds nothing but has looked there too. -/
theorem placement_findable_collided :
    ∃ placed after, (kvGenLba NvmKvStore.terabyteStore 0 (bytePair behindKey) (fun _ => 0) false
        none).run (answer NvmKvStore.terabyteStore ()) frontState = some (placed, after) ∧
      placed.keyHashVal = behindLba ∧
      (NvmKvStore.terabyteStore.probes 0 behindKey).find?
        (suits NvmKvStore.terabyteStore frontState.media 0 behindKey) = some behindLba ∧
      Examines NvmKvStore.terabyteStore () (kvReadMedia NvmKvStore.terabyteStore 0 behindKey
        (poolBuffer fun _ => 0) 0 (fun _ => 0) false) frontState behindLba := by
  obtain ⟨shares, next⟩ := behindKey_probes
  obtain ⟨taken, free, unheld⟩ := frontState_addresses
  obtain ⟨later, probes⟩ := probes_head NvmKvStore.terabyteStore 0 behindKey
  rw [shares, next] at probes
  obtain ⟨findable, first⟩ := placement_findable NvmKvStore.terabyteStore () 0
    (bytePair behindKey) (fun _ => 0) frontState (by decide)
  obtain ⟨read, ran⟩ := @run_kvGenLbaProbes _ NvmKvStore.terabyteStore () frontState 0
    (bytePair behindKey) (NvmKvStore.terabyteStore.probes 0 behindKey) (fun _ => 0) (by decide)
    fun _ _ => rfl
  have ends : place NvmKvStore.terabyteStore frontState.clock frontState.media 0 behindKey true
      (NvmKvStore.terabyteStore.probes 0 behindKey) = .fresh behindLba := by
    rw [probes, place, taken, unheld, place, free]
    rfl
  change _ = some ((place NvmKvStore.terabyteStore frontState.clock frontState.media 0 behindKey
    true (NvmKvStore.terabyteStore.probes 0 behindKey)).result _ _ _ _ _, _) at ran
  rw [ends] at ran
  obtain ⟨placed, after, found, suited, _⟩ := first fun _ => rfl
  obtain ⟨rfl, rfl⟩ := Prod.mk.inj (Option.some.inj (ran.symm.trans found))
  obtain ⟨result, looked, absent⟩ := @run_kvReadMedia_header _ NvmKvStore.terabyteStore ()
    frontState 0 behindKey (fun _ => 0) (by decide) (by decide)
  have missing : lookupLba NvmKvStore.terabyteStore frontState.media 0 behindKey = none :=
    List.find?_eq_none.mpr fun lba _ => by rw [unheld lba]; exact Bool.false_ne_true
  rw [missing] at absent
  obtain ⟨_, _, _, looks⟩ := findable false none _ _ ran rfl
  exact ⟨_, _, ran, rfl, suited rfl, looks () _ 0 _ false frontState frontState
    (looked.trans (by rw [absent]))⟩

section Fresh

variable {store : NvmKvStore}

/-- An accepted pair has no more sectors than a search window. -/
theorem extent_in_window {keyLen valueLen : Nat} (value : Memory)
    (short : keyLen ≤ nvmKvMaxKeySize) (positive : 0 < valueLen)
    (bounded : valueLen ≤ nvmKvMaxValueSize) :
    pairSectors store.capabilities keyLen value valueLen ≤ 2 ^ store.valueBits := by
  obtain ⟨_, most, _⟩ :=
    @NvmKvStore.pairSectors_upper store keyLen valueLen value short positive bounded
  have halves := @NvmKvStore.slot_halves store
  have offsets := Nat.two_pow_pos store.poolBits
  omega

/-- The vectors of a put write no sector outside the extent of the pair. -/
theorem putIovec_inside {poolId : UInt32} {pair : NvmKvIovec} {buf : Region} {clock lba l : Nat}
    (media : Media) (short : pair.key.length ≤ nvmKvMaxKeySize) (positive : 0 < pair.valueLen)
    (bounded : pair.valueLen ≤ nvmKvMaxValueSize)
    (changed : media.applyBatch store.sectorSize (putIovec store poolId pair
      (writeLayout store.capabilities pair.key.length pair.value pair.valueLen) buf clock lba) l ≠
        media l) :
    lba ≤ l ∧
      l < lba + pairSectors store.capabilities pair.key.length pair.value pair.valueLen := by
  have values : nvmKvMaxValueSize = 1047552 := rfl
  have written : sectorsWritten store.capabilities
      (writeLayout store.capabilities pair.key.length pair.value pair.valueLen) pair.valueLen ≤
      pairSectors store.capabilities pair.key.length pair.value pair.valueLen := by
    rw [pairSectors_eq pair.value short positive bounded, sectorsWritten]
    by_cases fits : fitsSector store.capabilities pair.key.length pair.valueLen
    · rw [writeLayout_fits pair.value fits, if_pos fits]
      exact le_rfl
    · rw [if_neg fits]
      split_ifs <;> omega
  by_contra outside
  apply changed
  change media.applyBatch store.capabilities.nvmSectorSize _ l = media l
  rw [putIovec, pairIovec_applied _ _ _ (by omega)]
  exact pairWritten_outside _ _ _ media (by omega)

end Fresh

/-- An address that a search takes anew, not held by a pair of the key and not chosen by
the batch before, is the start of an unmapped window. The extent of the pair lies within
it, and the vectors of the pair write no sector beyond this extent. -/
theorem fresh_extent_unmapped (store : NvmKvStore) (thread : ι) (outcome : Nat → Bool)
    (poolId : UInt32) (pair : NvmKvIovec) (buf : Region) (insertLba : Bool)
    (lbaList : Option LbaList) (run after : DeviceRun ι) (placed : GenLba)
    (key_accepted : kvValidateKey pair.key = true)
    (value_accepted : kvValidateValue store false pair.valueLen = true)
    (ran : (kvGenLba store poolId pair buf insertLba lbaList).run (answerWith store thread outcome)
      run = some (placed, after))
    (success : placed.retCode = .ok ())
    (unchosen : ∀ chosen, lbaList = some chosen → placed.keyHashVal ∉ chosen.map Prod.fst)
    (other : holds store run.store.media poolId pair.key placed.keyHashVal = false) :
    (run.store.media.rangeExists ⟨placed.keyHashVal, store.maxSearchRange⟩).length = 0 ∧
    (∀ l, placed.keyHashVal ≤ l → l < placed.keyHashVal +
        pairSectors store.capabilities pair.key.length pair.value pair.valueLen →
      run.store.media l = none) ∧
    ∀ clock l, run.store.media.applyBatch store.sectorSize (putIovec store poolId pair
        (writeLayout store.capabilities pair.key.length pair.value pair.valueLen) placed.buf clock
        placed.keyHashVal) l ≠ run.store.media l →
      run.store.media l = none := by
  obtain ⟨_, short⟩ := of_decide_eq_true key_accepted
  obtain ⟨positive, bounded, _⟩ := of_decide_eq_true value_accepted
  have searched : ∀ lbas, (kvGenLbaProbes store poolId pair lbas insertLba buf).run
      (answerWith store thread outcome) run = some (placed, after) →
      suits store run.store.media poolId pair.key placed.keyHashVal = true := by
    intro lbas found
    obtain ⟨read, ends⟩ := run_kvGenLbaProbes_with store thread outcome short lbas insertLba buf run
    rw [ends] at found
    obtain ⟨reached, _, same⟩ := Option.map_eq_some_iff.mp found
    obtain ⟨rfl, rfl⟩ := Prod.mk.inj same
    exact searchWith_success success
  have suited : suits store run.store.media poolId pair.key placed.keyHashVal = true := by
    unfold kvGenLba at ran
    cases lbaList with
    | none => exact searched _ ran
    | some chosen =>
      dsimp only at ran
      split at ran
      · rename_i lba duplicate
        cases ran
        exact absurd (skipChosen_duplicate duplicate) (unchosen chosen rfl)
      · cases ran
        cases success
      · exact searched _ ran
  have free : windowFree store run.store.media placed.keyHashVal = true := by
    rwa [suits, other, Bool.or_false] at suited
  have unmapped : ∀ l, placed.keyHashVal ≤ l → l < placed.keyHashVal +
      pairSectors store.capabilities pair.key.length pair.value pair.valueLen →
      run.store.media l = none := by
    intro l starts ends
    have within := @extent_in_window store pair.key.length pair.valueLen pair.value short positive
      bounded
    have sector := windowFree_iff.mp free (l - placed.keyHashVal) (by omega)
    rwa [Nat.add_sub_cancel' starts] at sector
  refine ⟨of_decide_eq_true free, unmapped, ?_⟩
  intro clock l changed
  obtain ⟨starts, ends⟩ := putIovec_inside run.store.media short positive bounded changed
  exact unmapped l starts ends

/-- There a search for the key behind the front one passes by the first address and takes the
second one, when the device works. -/
theorem front_search {outcome : Nat → Bool} (works : ∀ i, outcome i = true) :
    searchWith NvmKvStore.terabyteStore outcome frontState.clock frontState.media 0
        (bytePair behindKey) false 0 (NvmKvStore.terabyteStore.probes 0 behindKey) =
      ⟨.ok (), 0, behindLba, true, some behindLba, none, 3⟩ := by
  obtain ⟨shares, next⟩ := behindKey_probes
  obtain ⟨taken, free, unheld⟩ := frontState_addresses
  obtain ⟨later, probes⟩ := probes_head NvmKvStore.terabyteStore 0 behindKey
  have other : holds NvmKvStore.terabyteStore frontState.media 0 (bytePair behindKey).key frontLba =
      false := unheld frontLba
  rw [probes, shares, next, searchWith]
  simp only [works, taken, other, searchWith_fresh (works _) free, Bool.true_eq_false,
    Bool.false_eq_true, if_false]

/-- The window that this search takes is unmapped, and so is what the pair covers there. -/
theorem fresh_extent_unmapped_collided :
    ∃ placed after, (kvGenLba NvmKvStore.terabyteStore 0 (bytePair behindKey) (fun _ => 0) false
        none).run (answerWith NvmKvStore.terabyteStore () fun _ => true) ⟨frontState, 0, []⟩ =
          some (placed, after) ∧
      placed.keyHashVal = behindLba ∧
      (frontState.media.rangeExists
        ⟨placed.keyHashVal, NvmKvStore.terabyteStore.maxSearchRange⟩).length = 0 ∧
      ∀ l, placed.keyHashVal ≤ l → l < placed.keyHashVal +
          pairSectors NvmKvStore.terabyteStore.capabilities behindKey.length
            (bytePair behindKey).value 1 → frontState.media l = none := by
  obtain ⟨_, _, unheld⟩ := frontState_addresses
  have short : (bytePair behindKey).key.length ≤ nvmKvMaxKeySize := by decide
  have key_accepted : kvValidateKey (bytePair behindKey).key = true := by decide
  have value_accepted : kvValidateValue NvmKvStore.terabyteStore false
      (bytePair behindKey).valueLen = true :=
    show kvValidateValue NvmKvStore.terabyteStore false 1 = true by decide
  obtain ⟨read, ran⟩ := @run_kvGenLbaProbes_with Unit NvmKvStore.terabyteStore () (fun _ => true)
    0 (bytePair behindKey) short (NvmKvStore.terabyteStore.probes 0 behindKey) false (fun _ => 0)
    ⟨frontState, 0, []⟩
  dsimp only at ran
  rw [front_search fun _ => rfl, DeviceRun.take_unlisted (by rfl), Option.map_some] at ran
  have unchosen : ∀ chosen : LbaList, none = some chosen →
      behindLba ∉ chosen.map Prod.fst := by
    intro chosen wrong
    cases wrong
  obtain ⟨window, extent, _⟩ := fresh_extent_unmapped NvmKvStore.terabyteStore () (fun _ => true) 0
    (bytePair behindKey) (fun _ => 0) false none ⟨frontState, 0, []⟩ _ _ key_accepted
    value_accepted ran rfl unchosen (unheld behindLba)
  exact ⟨_, _, ran, rfl, window, extent⟩

end Nvmkv
