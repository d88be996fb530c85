import Nvmkv.SequentialRuns

/-!
# One address for each key

The search of a put ends at the first probe address of its key whose window is free or that
holds the key. When the window of a pair in front was freed by a delete, the search ends
there, although an address behind it may hold the key. The put then writes the key a second
time, and a delete, which trims the first address that holds the key, leaves the older pair.

As long as no put ends its search at such a hole, and no sector of a value reads as the
header of a key that another address holds, every key is held by one address at most. This
is carried over whole runs, for every key on its own, by what a put adds to what is held.
-/

namespace Nvmkv

variable {ι : Type} {store : NvmKvStore}

/-- At most one probe address holds a key. -/
def HeldOnce (store : NvmKvStore) (media : Media) (poolId : UInt32) (key : List UInt8) : Prop :=
  ∀ a ∈ store.probes poolId key, ∀ b ∈ store.probes poolId key,
    holds store media poolId key a = true → holds store media poolId key b = true → a = b

/-- No probe address holds a key. -/
def Unheld (store : NvmKvStore) (media : Media) (poolId : UInt32) (key : List UInt8) : Prop :=
  ∀ lba ∈ store.probes poolId key, holds store media poolId key lba = false

/-- The first probe address of a key whose window is free or that holds the key. -/
def searchEnd (store : NvmKvStore) (media : Media) (poolId : UInt32) (key : List UInt8) :
    Option Nat :=
  (store.probes poolId key).find? fun lba =>
    windowFree store media lba || holds store media poolId key lba

/-- When that window is free, no address holds the key. -/
def NoHole (store : NvmKvStore) (media : Media) (poolId : UInt32) (key : List UInt8) : Prop :=
  ∀ lba, searchEnd store media poolId key = some lba → windowFree store media lba = true →
    Unheld store media poolId key

/-- A put that may write has a sector of its value at an address of a key, and it reads as
the header of that key. -/
def ForgesAt (store : NvmKvStore) (media : Media) (poolId : UInt32) (pair : NvmKvIovec)
    (other : UInt32) (key : List UInt8) (l : Nat) : Prop :=
  l ∈ store.probes other key ∧ ∃ lba sector,
    searchEnd store media poolId pair.key = some lba ∧
      (windowFree store media lba = true ∨ pair.replace = true) ∧
      ValueSector store pair lba l sector ∧ headerMatches sector other key = true

/-- A put fills the vectors that it announces, finds no hole in front of the key, and forges
the key at no second address. -/
def KeepsHeldOnce (store : NvmKvStore) (other : UInt32) (key : List UInt8) :
    SequentialCall → StoreState ι → Prop
  | .kvPut poolId pair _, state =>
      pair.Filled store ∧
        (poolId = other → pair.key = key → NoHole store state.media other key) ∧
        ∀ l, ForgesAt store state.media poolId pair other key l →
          ∀ held ∈ store.probes other key, holds store state.media other key held = true → held = l
  | _, _ => True

/-- A put of another key fills the vectors that it announces and does not forge the key. -/
def LeavesUnheld (store : NvmKvStore) (other : UInt32) (key : List UInt8) :
    SequentialCall → StoreState ι → Prop
  | .kvPut poolId pair _, state =>
      pair.Filled store ∧ ¬(poolId = other ∧ pair.key = key) ∧
        ∀ l, ¬ForgesAt store state.media poolId pair other key l
  | _, _ => True

section Search

variable {media : Media} {poolId : UInt32} {key : List UInt8} {lba : Nat}

/-- A search ends at an address of its key. -/
theorem searchEnd_probed (ends : searchEnd store media poolId key = some lba) :
    lba ∈ store.probes poolId key := List.mem_of_find?_eq_some ends

/-- When an address holds the key and there is no hole, the search ends at that address. -/
theorem NoHole.searchEnd (noHole : NoHole store media poolId key)
    (once : HeldOnce store media poolId key) (probed : lba ∈ store.probes poolId key)
    (held : holds store media poolId key lba = true) :
    searchEnd store media poolId key = some lba := by
  have stops : (Nvmkv.searchEnd store media poolId key).isSome = true :=
    List.find?_isSome.mpr ⟨lba, probed, by rw [held, Bool.or_true]⟩
  obtain ⟨first, ends⟩ := Option.isSome_iff_exists.mp stops
  have here := List.find?_some ends
  rw [Bool.or_eq_true] at here
  rcases here with free | here
  · rw [noHole first ends free lba probed] at held
    cases held
  · rw [ends, once first (searchEnd_probed ends) lba probed here held]

/-- The search of a put without expiry goes to that address. Induction follows the
addresses. -/
theorem place_find (disabled : store.expiryMode = .disableExpiry) (clock : Nat) (replace : Bool)
    (lbas : List Nat) :
    place store clock media poolId key replace lbas =
      match lbas.find? fun lba =>
        windowFree store media lba || holds store media poolId key lba with
      | none => .full
      | some lba =>
          if windowFree store media lba then .fresh lba
          else if replace then .replaced lba else .refused lba := by
  induction lbas with
  | nil => rfl
  | cons lba rest inductionHypothesis =>
    have unexpired : pairExpired store clock (storedHeader store media lba) = false := by
      simp [pairExpired, disabled]
    cases free : windowFree store media lba with
    | true => simp [place, free]
    | false =>
      cases held : holds store media poolId key lba with
      | true => simp [place, free, held, unexpired]
      | false => simpa [place, free, held] using inductionHypothesis

end Search

section Puts

variable {thread : ι} {poolId : UInt32} {pair : NvmKvIovec} {allocation : Allocation}
  {state after : StoreState ι} {lba trimLen : Nat} {memory : Nat → NvmIovec}
  {trims : List NvmIovec} {buf : Region}

/-- A put that is written goes to the end of its search, which is a free window, or the put
replaces. -/
theorem PutWritten.searchEnd (noCache : store.cacheSize = 0)
    (disabled : store.expiryMode = .disableExpiry)
    (written : PutWritten store thread poolId pair allocation state after lba trimLen memory trims
      buf) :
    searchEnd store state.media poolId pair.key = some lba ∧
      (windowFree store state.media lba = true ∨ pair.replace = true) := by
  have missed : cacheAnswer store state poolId pair.key = (false, .zero) := if_neg (by omega)
  have target := written.ready.target
  simp only [putTarget, missed, Bool.false_eq_true, if_false, putPlace,
    place_find disabled] at target
  change (match Nvmkv.searchEnd store state.media poolId pair.key with
    | none => Place.full
    | some lba => _).target store state.media pair.valueLen = _ at target
  cases ends : Nvmkv.searchEnd store state.media poolId pair.key with
  | none =>
    rw [ends] at target
    cases target
  | some first =>
    simp only [ends] at target
    split_ifs at target with free replaces
    · cases target
      exact ⟨rfl, Or.inl free⟩
    · cases target
      exact ⟨rfl, Or.inr replaces⟩
    · cases target

/-- The sectors of a value lie in the window behind the address of its pair. -/
theorem ValueSector.near {l : Nat} {sector : Region} (value : ValueSector store pair lba l sector)
    (bounded : pair.valueLen ≤ nvmKvMaxValueSize) : lba < l ∧ l < lba + 2 ^ store.valueBits := by
  obtain ⟨user, i, inside, rfl, _⟩ := value
  have few := @sectorsWritten_le store (pair.layout store) _ bounded
  rw [sectorsWritten, if_pos user] at few
  omega

end Puts

section Steps

variable {thread : ι} {other : UInt32} {key : List UInt8} {state after : StoreState ι}

/-- What an address holds after a put it held before, or the put has written it there. -/
theorem PutWritten.origin (noCache : store.cacheSize = 0)
    (disabled : store.expiryMode = .disableExpiry) (valid : kvValidateKey key = true)
    {poolId : UInt32} {pair : NvmKvIovec} {allocation : Allocation} {lba trimLen : Nat}
    {memory : Nat → NvmIovec} {trims : List NvmIovec} {buf : Region}
    (filled : pair.Filled store)
    (written : PutWritten store thread poolId pair allocation state after lba trimLen memory trims
      buf) {l : Nat} (probed : l ∈ store.probes other key)
    (held : holds store after.media other key l = true) :
    holds store state.media other key l = true ∨ (l = lba ∧ poolId = other ∧ pair.key = key) ∨
      ForgesAt store state.media poolId pair other key l := by
  obtain ⟨ends, writes⟩ := written.searchEnd noCache disabled
  refine (written.held filled valid held).imp_right (Or.imp_right ?_)
  rintro ⟨sector, value, matched⟩
  exact ⟨probed, lba, sector, ends, writes, value, matched⟩

/-- A put that keeps to the condition of a key writes the key at most where it is held. What it
writes lies in one window, where the key has one address, and the key is held at no other. -/
theorem HeldOnce.put (noCache : store.cacheSize = 0) (disabled : store.expiryMode = .disableExpiry)
    (valid : kvValidateKey key = true) (once : HeldOnce store state.media other key)
    {poolId : UInt32} {pair : NvmKvIovec} {allocation : Allocation} {lba trimLen : Nat}
    {memory : Nat → NvmIovec} {trims : List NvmIovec} {buf : Region}
    (keeps : KeepsHeldOnce store other key (.kvPut poolId pair allocation) state)
    (written : PutWritten store thread poolId pair allocation state after lba trimLen memory trims
      buf) : HeldOnce store after.media other key := by
  obtain ⟨filled, noHole, forgesNoSecond⟩ := keeps
  have ends := (written.searchEnd noCache disabled).1
  have bounded := written.ready.lengths.2.2
  have nonempty : key ≠ [] := List.length_pos_iff.mp (of_decide_eq_true valid).1
  have window : ∀ l, (l = lba ∧ poolId = other ∧ pair.key = key) ∨
      ForgesAt store state.media poolId pair other key l →
        lba ≤ l ∧ l < lba + 2 ^ store.valueBits := by
    rintro l (⟨rfl, _⟩ | ⟨_, first, sector, found, _, value, _⟩)
    · exact ⟨le_rfl, Nat.lt_add_of_pos_right (Nat.two_pow_pos _)⟩
    · rw [ends, Option.some.injEq] at found
      subst found
      obtain ⟨behind, inside⟩ := value.near bounded
      exact ⟨Nat.le_of_lt behind, inside⟩
  have single : ∀ l held, held ∈ store.probes other key →
      (l = lba ∧ poolId = other ∧ pair.key = key) ∨
        ForgesAt store state.media poolId pair other key l →
      holds store state.media other key held = true → held = l := by
    rintro l held probed (⟨rfl, rfl, rfl⟩ | forged) holding
    · have here := NoHole.searchEnd (noHole rfl rfl) once probed holding
      rw [ends, Option.some.injEq] at here
      exact here.symm
    · exact forgesNoSecond l forged held probed holding
  intro a probedA b probedB heldA heldB
  rcases written.origin noCache disabled valid filled probedA heldA with heldA | writtenA
  · rcases written.origin noCache disabled valid filled probedB heldB with heldB | writtenB
    · exact once a probedA b probedB heldA heldB
    · exact single b a probedA writtenB heldA
  · rcases written.origin noCache disabled valid filled probedB heldB with heldB | writtenB
    · exact (single a b probedB writtenA heldB).symm
    · obtain ⟨lowA, highA⟩ := window a writtenA
      obtain ⟨lowB, highB⟩ := window b writtenB
      rcases Nat.le_total a b with before | before
      · exact probes_apart nonempty nonempty probedA probedB before (by omega)
      · exact (probes_apart nonempty nonempty probedB probedA before (by omega)).symm

/-- Every call that keeps to the condition of a key leaves the key at one address at most. -/
theorem HeldOnce.step (noCache : store.cacheSize = 0)
    (disabled : store.expiryMode = .disableExpiry) (valid : kvValidateKey key = true)
    (once : HeldOnce store state.media other key)
    (effect : StepEffect store thread (KeepsHeldOnce store other key) state after) :
    HeldOnce store after.media other key := by
  cases effect with
  | stays same => rwa [same]
  | puts poolId pair allocation admitted lba trimLen memory trims buf written =>
    exact once.put noCache disabled valid admitted written
  | trims lba sectors trimmed =>
    rw [trimmed]
    intro a probedA b probedB heldA heldB
    exact once a probedA b probedB (held_after_trim valid heldA).1 (held_after_trim valid heldB).1

/-- Every call that neither puts nor forges a key leaves it unheld. -/
theorem Unheld.step (noCache : store.cacheSize = 0)
    (disabled : store.expiryMode = .disableExpiry) (valid : kvValidateKey key = true)
    (unheld : Unheld store state.media other key)
    (effect : StepEffect store thread (LeavesUnheld store other key) state after) :
    Unheld store after.media other key := by
  cases effect with
  | stays same => rwa [same]
  | puts poolId pair allocation admitted lba trimLen memory trims buf written =>
    obtain ⟨filled, another, unforged⟩ := admitted
    intro l probed
    rw [Bool.eq_false_iff]
    intro held
    rcases written.origin noCache disabled valid filled probed held with before | own | forged
    · rw [unheld l probed] at before
      cases before
    · exact another own.2
    · exact unforged l forged
  | trims lba sectors trimmed =>
    rw [trimmed]
    intro l probed
    rw [Bool.eq_false_iff]
    intro held
    have before := (held_after_trim valid held).1
    rw [unheld l probed] at before
    cases before

end Steps

/-- A put of a key that an address holds writes at that address when it replaces, and else it
is refused and changes nothing. -/
structure PutsWhereHeld (store : NvmKvStore) (thread : ι) (state : StoreState ι)
    (poolId : UInt32) (pair : NvmKvIovec) (allocation : Allocation) (lba : Nat) : Prop where
  replaces : pair.replace = true → ∀ length after,
    (kvPut store poolId pair allocation).run (answer store thread) state =
      some (.ok length, after) → ∃ trimLen memory trims buf,
        PutWritten store thread poolId pair allocation state after lba trimLen memory trims buf
  refuses : pair.replace = false → putAccepted store state poolId pair = true →
    (∃ layout unused, kvAllocForWrite store.capabilities pair.key.length pair.value pair.valueLen
      allocation.buf = .ok (layout, unused)) →
    (kvPut store poolId pair allocation).run (answer store thread) state =
      some (.error .objectExists, state)

/-- A key that is held once, with no free window in front, is put where it is held. -/
theorem PutsWhereHeld.of_held {thread : ι} {state : StoreState ι} {poolId : UInt32}
    {pair : NvmKvIovec} {allocation : Allocation} {lba : Nat} (noCache : store.cacheSize = 0)
    (disabled : store.expiryMode = .disableExpiry) (idle : Idle state)
    (once : HeldOnce store state.media poolId pair.key)
    (noHole : NoHole store state.media poolId pair.key)
    (probed : lba ∈ store.probes poolId pair.key)
    (held : holds store state.media poolId pair.key lba = true) :
    PutsWhereHeld store thread state poolId pair allocation lba := by
  have ends := noHole.searchEnd once probed held
  constructor
  · intro _ length after ran
    rcases sequential_put noCache idle ran with
      ⟨⟨code, failed⟩, _⟩ | ⟨_, first, trimLen, memory, trims, buf, written⟩
    · cases failed
    · have here := (written.searchEnd noCache disabled).1
      rw [ends, Option.some.injEq] at here
      subst here
      exact ⟨trimLen, memory, trims, buf, written⟩
  · rintro refused accepted ⟨layout, unused, allocated⟩
    have taken : windowFree store state.media lba = false := by
      rw [Bool.eq_false_iff]
      intro free
      rw [noHole lba ends free lba probed] at held
      cases held
    have missed : cacheAnswer store state poolId pair.key = (false, .zero) := if_neg (by omega)
    have placed : putPlace store state poolId pair = .refused lba := by
      rw [putPlace, place_find disabled]
      change (match Nvmkv.searchEnd store state.media poolId pair.key with
        | none => Place.full
        | some lba => _) = _
      rw [ends]
      simp [taken, refused]
    have target : putTarget store state poolId pair = none := by
      rw [putTarget, missed, placed]
      rfl
    obtain ⟨result, after, ran, effect⟩ :=
      run_kvPut store thread state idle poolId pair allocation
    rw [ran]
    cases effect with
    | invalid rejected => exact absurd accepted (by simp [rejected])
    | remembered _ _ => rfl
    | leaked _ _ found _ =>
      rw [missed] at found
      cases found
    | unallocated _ _ _ failed => exact absurd (allocated.symm.trans failed) (by simp)
    | refused _ _ _ _ => rfl
    | full _ _ full => exact absurd (placed.symm.trans full) (by simp)
    | outOfMemory _ _ _ other _ => exact absurd (target.symm.trans other) (by simp)
    | untrimmable _ _ _ _ other _ => exact absurd (target.symm.trans other) (by simp)
    | written _ _ _ _ _ _ _ _ _ _ other _ _ => exact absurd (target.symm.trans other) (by simp)

/-- In a run without holes and forged headers every key is held at one address at most, and
puts of a key that an address holds go to that address, unless a hole lies in front of it. -/
theorem keys_held_once (store : NvmKvStore) (thread : ι) (noCache : store.cacheSize = 0)
    (disabled : store.expiryMode = .disableExpiry) (start state : StoreState ι)
    (first : Idle start)
    (initial : ∀ poolId key, kvValidateKey key = true → HeldOnce store start.media poolId key)
    (run : SequentialRun store thread (fun call state => ∀ poolId key, kvValidateKey key = true →
      KeepsHeldOnce store poolId key call state) start state) :
    (∀ poolId key, kvValidateKey key = true → HeldOnce store state.media poolId key) ∧
      ∀ poolId pair allocation, ∀ lba ∈ store.probes poolId pair.key,
        kvValidateKey pair.key = true → holds store state.media poolId pair.key lba = true →
        NoHole store state.media poolId pair.key →
          PutsWhereHeld store thread state poolId pair allocation lba := by
  obtain ⟨idle, once⟩ := @SequentialRun.preserves _ _ _ _ noCache _
    (fun media => ∀ poolId key, kvValidateKey key = true → HeldOnce store media poolId key)
    (fun before after _ once effect poolId key valid =>
      (once poolId key valid).step noCache disabled valid
        (effect.mono fun call state keeps => keeps poolId key valid)) start first initial run
  refine ⟨once, ?_⟩
  intro poolId pair allocation lba probed valid held noHole
  exact .of_held noCache disabled idle (once poolId pair.key valid) noHole probed held

/-- A delete that succeeds leaves no address that holds its key, if one held it at most. It is the
address that the delete found. -/
theorem unheld_of_deleted {thread : ι} {state after : StoreState ι} {poolId : UInt32}
    {key : List UInt8} {buf : Option Region} {allocated : Bool} (noCache : store.cacheSize = 0)
    (idle : Idle state) (valid : kvValidateKey key = true)
    (once : HeldOnce store state.media poolId key)
    (deleted : (kvDelete store poolId key buf allocated).run (answer store thread) state =
      some (.ok (), after)) : Idle after ∧ Unheld store after.media poolId key := by
  rcases sequential_delete noCache idle deleted with
    ⟨same, absent⟩ | ⟨lba, found, _, media, list, _⟩
  · subst same
    refine ⟨idle, fun lba probed => ?_⟩
    rw [Bool.eq_false_iff]
    exact List.find?_eq_none.mp (absent rfl) lba probed
  · refine ⟨fun other => (congrFun list other).trans (idle other), fun other probed => ?_⟩
    rw [Bool.eq_false_iff, media]
    intro held
    obtain ⟨before, outside⟩ := held_after_trim valid held
    have same := once other probed lba (List.mem_of_find?_eq_some found) before
      (List.find?_some found)
    exact outside ⟨Nat.le_of_eq same.symm, same ▸ Nat.lt_add_of_pos_right (Nat.two_pow_pos _)⟩

/-- After a delete no lookup finds the key until it is put again, if no hole was filled in
front of it before the delete, and no value forges it. -/
theorem delete_final (store : NvmKvStore) (thread : ι) (noCache : store.cacheSize = 0)
    (disabled : store.expiryMode = .disableExpiry) (start state after final : StoreState ι)
    (first : Idle start) (poolId : UInt32) (key : List UInt8)
    (initial : HeldOnce store start.media poolId key)
    (before : SequentialRun store thread (KeepsHeldOnce store poolId key) start state)
    (buf : Option Region) (allocated : Bool)
    (deleted : (kvDelete store poolId key buf allocated).run (answer store thread) state =
      some (.ok (), after))
    (later : SequentialRun store thread (LeavesUnheld store poolId key) after final)
    (accepted : keyAccepted final poolId key = true) :
    NotFound store thread final poolId key := by
  have valid : kvValidateKey key = true := by
    rw [keyAccepted, Bool.and_eq_true] at accepted
    exact accepted.2
  obtain ⟨idle, once⟩ := @SequentialRun.preserves _ _ _ _ noCache _
    (fun media => HeldOnce store media poolId key)
    (fun before after _ once effect => once.step noCache disabled valid effect) start first initial
    before
  obtain ⟨idle, unheld⟩ := unheld_of_deleted noCache idle valid once deleted
  exact .of_unheld accepted (@SequentialRun.preserves _ _ _ _ noCache _
    (fun media => Unheld store media poolId key)
    (fun before after _ unheld effect => unheld.step noCache disabled valid effect) after idle
    unheld later).2

section Hole

/-- A search ends at the first address when its window is free. -/
theorem searchEnd_first {media : Media} {poolId : UInt32} {key : List UInt8}
    (free : windowFree store media (store.probeLba poolId key 0) = true) :
    searchEnd store media poolId key = some (store.probeLba poolId key 0) := by
  obtain ⟨later, probes⟩ := probes_head store poolId key
  rw [searchEnd, probes, List.find?_cons_of_pos (by rw [free, Bool.true_or])]

/-- It ends at the second one when the first holds another key. -/
theorem searchEnd_second {media : Media} {poolId : UInt32} {key : List UInt8}
    (taken : windowFree store media (store.probeLba poolId key 0) = false)
    (other : holds store media poolId key (store.probeLba poolId key 0) = false)
    (free : windowFree store media (store.probeLba poolId key 1) = true) :
    searchEnd store media poolId key = some (store.probeLba poolId key 1) := by
  obtain ⟨later, probes⟩ := probes_head store poolId key
  rw [searchEnd, probes, List.find?_cons_of_neg (by simp [taken, other]),
    List.find?_cons_of_pos (by rw [free, Bool.true_or])]

/-- A lookup ends at the first address when that holds the key. -/
theorem lookupLba_first {media : Media} {poolId : UInt32} {key : List UInt8}
    (held : holds store media poolId key (store.probeLba poolId key 0) = true) :
    lookupLba store media poolId key = some (store.probeLba poolId key 0) := by
  obtain ⟨later, probes⟩ := probes_head store poolId key
  rw [lookupLba, probes, List.find?_cons_of_pos held]

/-- It ends at the second one when only that holds the key. -/
theorem lookupLba_second {media : Media} {poolId : UInt32} {key : List UInt8}
    (other : holds store media poolId key (store.probeLba poolId key 0) = false)
    (held : holds store media poolId key (store.probeLba poolId key 1) = true) :
    lookupLba store media poolId key = some (store.probeLba poolId key 1) := by
  obtain ⟨later, probes⟩ := probes_head store poolId key
  rw [lookupLba, probes, List.find?_cons_of_neg (by simp [other]), List.find?_cons_of_pos held]

/-- A window with a mapped first sector is taken. -/
theorem windowFree_mapped {media : Media} {lba : Nat} (mapped : media lba ≠ none) :
    windowFree store media lba = false := by
  rw [Bool.eq_false_iff]
  intro free
  exact mapped (windowFree_iff.mp free 0 (Nat.two_pow_pos _))

/-- Two keys of the default pool with the same probe addresses. -/
def frontKey : List UInt8 := [113]

/-- A key whose first address is that of the key in front. -/
def behindKey : List UInt8 := [119, 116, 122]

/-- The first two of these addresses. -/
def frontLba : Nat := NvmKvStore.terabyteStore.probeLba 0 frontKey 0

/-- Their second address. -/
def behindLba : Nat := NvmKvStore.terabyteStore.probeLba 0 frontKey 1

/-- The two addresses that the key tries first. -/
theorem behindKey_probes :
    NvmKvStore.terabyteStore.probeLba 0 behindKey 0 = frontLba ∧
      NvmKvStore.terabyteStore.probeLba 0 behindKey 1 = behindLba := by
  decide

/-- The windows of both are apart. -/
theorem behindLba_apart : behindLba + 2 ^ 12 ≤ frontLba := by
  decide

/-- What the address of a written sector holds. -/
theorem holds_written {poolId other : UInt32} {pair : NvmKvIovec} {key : List UInt8}
    {media after : Media} {lba clock : Nat} {buf : Region}
    (written : after = Function.update media lba
      (some (firstSector store poolId pair (pair.layout store) buf clock)))
    (pairShort : pair.key.length ≤ nvmKvMaxKeySize) (short : key.length ≤ nvmKvMaxKeySize) :
    holds store after other key lba = decide (poolId = other ∧ pair.key = key) := by
  have stored := congrFun written lba
  rw [Function.update_self] at stored
  rw [holds_sector short stored, headerMatches_firstSector pairShort short]

/-- A value of one byte forges nothing. -/
theorem bytePair_forges {media : Media} {poolId other : UInt32} {key rival : List UInt8} {l : Nat}
    (inSector : ((bytePair rival).layout NvmKvStore.terabyteStore).userBufferUsage = false) :
    ¬ForgesAt NvmKvStore.terabyteStore media poolId (bytePair rival) other key l := by
  rintro ⟨_, lba, sector, _, _, ⟨user, _⟩, _⟩
  rw [inSector] at user
  cases user

/-- An empty store holds no key. -/
theorem unheld_blank {poolId : UInt32} {key : List UInt8} (valid : kvValidateKey key = true) :
    Unheld store (fun _ => none) poolId key :=
  fun _ _ => holds_unmapped (of_decide_eq_true valid).1 rfl

/-- A key that is held nowhere is held once at most. -/
theorem Unheld.heldOnce {media : Media} {poolId : UInt32} {key : List UInt8}
    (unheld : Unheld store media poolId key) : HeldOnce store media poolId key := by
  intro a probed b _ held
  rw [unheld a probed] at held
  cases held

/-- A first put into an empty store. -/
theorem frontKey_put {condition : SequentialCall → StoreState Unit → Prop}
    (admitted : condition (.kvPut 0 (bytePair frontKey) plentyMemory)
      (openedTerabyte fun _ => none)) :
    ∃ state, SequentialStep NvmKvStore.terabyteStore () condition (openedTerabyte fun _ => none)
        state ∧ Continues (openedTerabyte fun _ => none) state ∧
      ∃ buf, state.media = Function.update (fun _ => none) frontLba
        (some (firstSector NvmKvStore.terabyteStore 0 (bytePair frontKey)
          ((bytePair frontKey).layout NvmKvStore.terabyteStore) buf 0)) :=
  bytePair_put (fun _ => rfl) admitted rfl ⟨_, rfl⟩
    (searchEnd_first (windowFree_iff.mpr fun _ _ => rfl)) (windowFree_iff.mpr fun _ _ => rfl)

/-- After a put and a delete of a key, another key is put, and the first one is not found. -/
theorem delete_final_first : ∃ final : StoreState Unit,
    holds NvmKvStore.terabyteStore final.media 0 behindKey frontLba = true ∧
      NotFound NvmKvStore.terabyteStore () final 0 frontKey := by
  obtain ⟨shares, _⟩ := behindKey_probes
  have valid : kvValidateKey frontKey = true := by decide
  obtain ⟨one, put, continuesOne, bufOne, mediaOne⟩ := @frontKey_put
    (KeepsHeldOnce NvmKvStore.terabyteStore 0 frontKey)
    ⟨by decide, fun _ _ _ _ _ => unheld_blank valid,
      fun _ forged => absurd forged (bytePair_forges rfl)⟩
  have heldOne : holds NvmKvStore.terabyteStore one.media 0 frontKey frontLba = true :=
    holds_written mediaOne (by decide) (by decide)
  obtain ⟨two, deleted, continuesTwo, mediaTwo⟩ := @delete_step Unit NvmKvStore.terabyteStore ()
    0 one rfl continuesOne.idle frontKey (continuesOne.accepts rfl) frontLba
    (lookupLba_first heldOne) fun _ => 0
  have freeTwo : windowFree NvmKvStore.terabyteStore two.media frontLba = true := by
    rw [windowFree_iff, mediaTwo]
    intro i inside
    exact Media.trim_inside ⟨Nat.le_add_right _ _, Nat.add_lt_add_left inside _⟩
  have otherEnd : searchEnd NvmKvStore.terabyteStore two.media 0 behindKey = some frontLba := by
    rw [← shares]
    exact searchEnd_first (by rw [shares]; exact freeTwo)
  obtain ⟨three, otherPut, continuesThree, bufThree, mediaThree⟩ := @bytePair_put 0 behindKey two
    frontLba continuesTwo.idle (LeavesUnheld NvmKvStore.terabyteStore 0 frontKey)
    ⟨by decide, by decide, fun _ => bytePair_forges rfl⟩
    (continuesTwo.accepts (continuesOne.accepts rfl)) ⟨_, rfl⟩ otherEnd freeTwo
  exact ⟨three, holds_written mediaThree (by decide) (by decide),
    delete_final NvmKvStore.terabyteStore () rfl rfl (openedTerabyte fun _ => none) one two three
      (fun _ => rfl) 0 frontKey (unheld_blank valid).heldOnce (.single put) _ _ deleted
      (.single otherPut)
      (continuesThree.accepts (continuesTwo.accepts (continuesOne.accepts rfl)))⟩

/-- While one of the two keys is at the first address, the search for the other one ends at the
second address when its window is free. -/
theorem searchEnd_behind {media : Media} {key other : List UInt8}
    (first : NvmKvStore.terabyteStore.probeLba 0 key 0 = frontLba)
    (second : NvmKvStore.terabyteStore.probeLba 0 key 1 = behindLba)
    (valid : kvValidateKey other = true) (different : other ≠ key)
    (held : holds NvmKvStore.terabyteStore media 0 other frontLba = true)
    (free : windowFree NvmKvStore.terabyteStore media behindLba = true) :
    searchEnd NvmKvStore.terabyteStore media 0 key = some behindLba := by
  rw [← second]
  refine searchEnd_second ?_ ?_ ?_
  · rw [first]
    exact windowFree_mapped (mapped_of_holds (of_decide_eq_true valid).1 held)
  · rw [first, Bool.eq_false_iff]
    exact fun own => different (headerMatches_unique held own).2
  · rw [second]
    exact free

/-- What is written at the first address leaves the window of the second one free. -/
theorem behindLba_free {media : Media} {sector : Option Region}
    (free : windowFree NvmKvStore.terabyteStore media behindLba = true) :
    windowFree NvmKvStore.terabyteStore (Function.update media frontLba sector) behindLba =
      true := by
  have apart := behindLba_apart
  have bits : NvmKvStore.terabyteStore.valueBits = 12 := by decide
  rw [windowFree_iff, bits] at free ⊢
  intro i inside
  rw [Function.update_of_ne (by omega)]
  exact free i inside

/-- After the front key the one behind it is put at the second address. -/
theorem colliding_puts {condition : SequentialCall → StoreState Unit → Prop}
    (first : condition (.kvPut 0 (bytePair frontKey) plentyMemory) (openedTerabyte fun _ => none))
    (second : ∀ one buf, one.media = Function.update (fun _ => none) frontLba
        (some (firstSector NvmKvStore.terabyteStore 0 (bytePair frontKey)
          ((bytePair frontKey).layout NvmKvStore.terabyteStore) buf 0)) →
      condition (.kvPut 0 (bytePair behindKey) plentyMemory) one) : ∃ state : StoreState Unit,
    SequentialRun NvmKvStore.terabyteStore () condition (openedTerabyte fun _ => none) state ∧
    Continues (openedTerabyte fun _ => none) state ∧
    holds NvmKvStore.terabyteStore state.media 0 frontKey frontLba = true ∧
    holds NvmKvStore.terabyteStore state.media 0 behindKey behindLba = true := by
  obtain ⟨shares, next⟩ := behindKey_probes
  have apart := behindLba_apart
  obtain ⟨one, firstPut, continuesOne, bufOne, mediaOne⟩ := @frontKey_put condition first
  have heldOne : holds NvmKvStore.terabyteStore one.media 0 frontKey frontLba = true :=
    holds_written mediaOne (by decide) (by decide)
  have freeOne : windowFree NvmKvStore.terabyteStore one.media behindLba = true := by
    rw [mediaOne]
    exact behindLba_free (windowFree_iff.mpr fun _ _ => rfl)
  have secondEnd : searchEnd NvmKvStore.terabyteStore one.media 0 behindKey = some behindLba :=
    searchEnd_behind shares next (by decide) (by decide) heldOne freeOne
  obtain ⟨two, secondPut, continuesTwo, bufTwo, mediaTwo⟩ := @bytePair_put 0 behindKey one behindLba
    continuesOne.idle condition (second one bufOne mediaOne) (continuesOne.accepts rfl) ⟨_, rfl⟩
    secondEnd freeOne
  have keptTwo : two.media frontLba = one.media frontLba := by
    rw [mediaTwo, Function.update_of_ne (by omega)]
  refine ⟨two, (Relation.ReflTransGen.single firstPut).tail secondPut,
    ⟨continuesTwo.idle, continuesTwo.inUse.trans continuesOne.inUse,
      continuesTwo.deleted.trans continuesOne.deleted⟩, ?_,
    holds_written mediaTwo (by decide) (by decide)⟩
  rw [holds_congr (by decide) keptTwo]
  exact heldOne

/-- After the puts of two keys with the same probe addresses every key is held at one address at
most, and the key that is at the second address goes there again. -/
theorem keys_held_once_collided : ∃ state : StoreState Unit,
    holds NvmKvStore.terabyteStore state.media 0 frontKey frontLba = true ∧
      holds NvmKvStore.terabyteStore state.media 0 behindKey behindLba = true ∧
      (∀ poolId key, kvValidateKey key = true →
        HeldOnce NvmKvStore.terabyteStore state.media poolId key) ∧
      ∀ allocation, PutsWhereHeld NvmKvStore.terabyteStore () state 0 (bytePair behindKey)
        allocation behindLba := by
  obtain ⟨shares, next⟩ := behindKey_probes
  obtain ⟨state, run, _, heldFront, heldBehind⟩ := @colliding_puts
    (fun call state => ∀ poolId key, kvValidateKey key = true →
      KeepsHeldOnce NvmKvStore.terabyteStore poolId key call state)
    (fun poolId key valid => ⟨by decide, fun _ _ _ _ _ => unheld_blank valid,
      fun _ forged => absurd forged (bytePair_forges rfl)⟩)
    (by
      intro one buf media poolId key valid
      refine ⟨by decide, ?_, fun _ forged => absurd forged (bytePair_forges rfl)⟩
      rintro rfl rfl _ _ _ lba _
      by_cases here : lba = frontLba
      · rw [here, holds_written media (by decide) (by decide)]
        decide
      · refine holds_unmapped (by decide) ?_
        rw [media, Function.update_of_ne here])
  obtain ⟨once, puts⟩ := keys_held_once NvmKvStore.terabyteStore () rfl rfl
    (openedTerabyte fun _ => none) state (fun _ => rfl)
    (fun _ _ valid => (unheld_blank valid).heldOnce) run
  refine ⟨state, heldFront, heldBehind, once, fun allocation => ?_⟩
  refine puts 0 (bytePair behindKey) allocation behindLba
    (mem_probes.mpr ⟨1, by decide, next⟩) (by decide) heldBehind ?_
  have taken : ∀ key lba, kvValidateKey key = true →
      holds NvmKvStore.terabyteStore state.media 0 key lba = true →
        windowFree NvmKvStore.terabyteStore state.media lba = false :=
    fun key lba valid held =>
      windowFree_mapped (mapped_of_holds (of_decide_eq_true valid).1 held)
  intro lba ends free
  obtain ⟨later, probes⟩ := probes_head NvmKvStore.terabyteStore 0 behindKey
  have other : holds NvmKvStore.terabyteStore state.media 0 behindKey frontLba = false := by
    rw [Bool.eq_false_iff]
    exact fun own => absurd (headerMatches_unique heldFront own).2 (by decide)
  change searchEnd NvmKvStore.terabyteStore state.media 0 behindKey = some lba at ends
  rw [searchEnd, probes, shares, next, List.find?_cons_of_neg (by
    rw [taken frontKey frontLba (by decide) heldFront, other]
    decide), List.find?_cons_of_pos (by rw [heldBehind, Bool.or_true]), Option.some.injEq] at ends
  rw [← ends, taken behindKey behindLba (by decide) heldBehind] at free
  cases free

/-- When the front key is deleted and the other one is put again, two addresses hold it. -/
theorem hole_filled : ∃ state : StoreState Unit,
    SequentialRun NvmKvStore.terabyteStore () (fun _ _ => True) (openedTerabyte fun _ => none)
      state ∧ Idle state ∧ keyAccepted state 0 behindKey = true ∧
    holds NvmKvStore.terabyteStore state.media 0 behindKey frontLba = true ∧
    holds NvmKvStore.terabyteStore state.media 0 behindKey behindLba = true := by
  obtain ⟨shares, next⟩ := behindKey_probes
  have apart := behindLba_apart
  obtain ⟨two, run, continuesTwo, heldFront, heldBehind⟩ :=
    @colliding_puts (fun _ _ => True) trivial fun _ _ _ => trivial
  have found : lookupLba NvmKvStore.terabyteStore two.media 0 frontKey = some frontLba :=
    lookupLba_first heldFront
  obtain ⟨three, ran, continuesThree, mediaThree⟩ := @delete_step Unit NvmKvStore.terabyteStore ()
    0 two rfl continuesTwo.idle frontKey (continuesTwo.accepts rfl) frontLba found fun _ => 0
  have freeThree : windowFree NvmKvStore.terabyteStore three.media frontLba = true := by
    rw [windowFree_iff, mediaThree]
    intro i inside
    exact Media.trim_inside ⟨Nat.le_add_right _ _, Nat.add_lt_add_left inside _⟩
  have thirdEnd : searchEnd NvmKvStore.terabyteStore three.media 0 behindKey = some frontLba := by
    rw [← shares]
    exact searchEnd_first (by rw [shares]; exact freeThree)
  obtain ⟨four, thirdPut, continuesFour, bufFour, mediaFour⟩ := @bytePair_put 0 behindKey three
    frontLba continuesThree.idle (fun _ _ => True) trivial
    (continuesThree.accepts (continuesTwo.accepts rfl)) ⟨_, rfl⟩ thirdEnd freeThree
  have kept : four.media behindLba = two.media behindLba := by
    rw [mediaFour, Function.update_of_ne (by omega), mediaThree, Media.trim_outside (by omega)]
  refine ⟨four, (run.tail ⟨.kvDelete 0 frontKey (some fun _ => 0) true, trivial,
    congrArg (Option.map Prod.snd) ran⟩).tail thirdPut, continuesFour.idle,
    continuesFour.accepts (continuesThree.accepts (continuesTwo.accepts rfl)),
    holds_written mediaFour (by decide) (by decide), ?_⟩
  rw [holds_congr (by decide) kept]
  exact heldBehind

/-- A put into a hole stores a key twice. -/
theorem hole_stores_twice :
    ¬∀ (store : NvmKvStore) (start state : StoreState Unit), store.cacheSize = 0 →
      store.expiryMode = .disableExpiry → Idle start → (∀ l, start.media l = none) →
      SequentialRun store () (fun _ _ => True) start state →
      ∀ poolId key, kvValidateKey key = true → HeldOnce store state.media poolId key := by
  intro once
  obtain ⟨shares, next⟩ := behindKey_probes
  have apart := behindLba_apart
  obtain ⟨state, run, _, _, heldFront, heldBehind⟩ := hole_filled
  have same := once _ _ _ rfl rfl (fun _ => rfl) (fun _ => rfl) run 0 behindKey (by decide) frontLba
    (mem_probes.mpr ⟨0, by decide, shares⟩) behindLba (mem_probes.mpr ⟨1, by decide, next⟩)
    heldFront heldBehind
  omega

/-- A delete of that key succeeds, and a lookup finds the other address. -/
theorem deleted_key_found :
    ¬∀ (store : NvmKvStore) (start state after : StoreState Unit), store.cacheSize = 0 →
      store.expiryMode = .disableExpiry → Idle start → (∀ l, start.media l = none) →
      SequentialRun store () (fun _ _ => True) start state →
      ∀ poolId key buf allocated, (kvDelete store poolId key buf allocated).run (answer store ())
        state = some (.ok (), after) → keyAccepted after poolId key = true →
      NotFound store () after poolId key := by
  intro final
  obtain ⟨shares, next⟩ := behindKey_probes
  have apart := behindLba_apart
  obtain ⟨state, run, idle, accepted, heldFront, heldBehind⟩ := hole_filled
  have found : lookupLba NvmKvStore.terabyteStore state.media 0 behindKey = some frontLba := by
    rw [← shares]
    exact lookupLba_first (by rw [shares]; exact heldFront)
  obtain ⟨after, ran, continues, media⟩ := @delete_step Unit NvmKvStore.terabyteStore () 0 state rfl
    idle behindKey accepted frontLba found fun _ => 0
  have acceptedAfter := continues.accepts accepted
  have missing := (final _ _ _ after rfl rfl (fun _ => rfl) (fun _ => rfl) run 0 behindKey _ _ ran
    acceptedAfter).kvExists fun _ => 0
  have gone : holds NvmKvStore.terabyteStore after.media 0 behindKey frontLba = false := by
    refine holds_unmapped (by decide) ?_
    rw [media, Media.trim_inside ⟨le_rfl, Nat.lt_add_of_pos_right (Nat.two_pow_pos _)⟩]
  have kept : after.media behindLba = state.media behindLba := by
    rw [media, Media.trim_outside (by omega)]
  have stays : lookupLba NvmKvStore.terabyteStore after.media 0 behindKey = some behindLba := by
    rw [← next]
    refine lookupLba_second (by rw [shares]; exact gone) ?_
    rw [next, holds_congr (by decide) kept]
    exact heldBehind
  rw [run_kvExists _ () after _ acceptedAfter, liveHeader, stays] at missing
  cases missing

end Hole

end Nvmkv
