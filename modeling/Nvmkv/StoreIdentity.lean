import Nvmkv.StoreOpening

/-!
# The id of a store

`kv_open` returns the id that the metadata of the device have. It is the number of the
descriptor under which the store was created, maybe long ago and in another process, and it
is also the key under which the manager keeps the store in memory. When the key is taken,
the store just opened is thrown away, on the assumption that the one in memory is the same,
and the call still succeeds.

An id therefore leads to the device it was returned for as long as no device is opened
whose id is taken by another one. Reads go through the descriptor, and everything else
through the handle that the device was opened with, so that a descriptor must not lead to
another device either.
-/

namespace Nvmkv

/-- How a store reaches its device (`nvm_kv_store_device_t`): reads use the descriptor, and
writes, trims and queries the handle. -/
structure NvmKvStoreDevice (Handle : Type) where
  fd : Nat
  nvmHandle : Handle

/-- The stores in memory (`m_kvMap`), the handles and descriptors that are open with their
devices, and the metadata on the devices. Descriptors are non-negative ints, so that no id
changes when it is stored or returned. `granted` has the ids that were returned for a device
and not closed since; it is read by no call. -/
structure ManagerState (Device Handle : Type) where
  kvMap : Nat → Option (NvmKvStoreDevice Handle)
  handles : Handle → Option Device
  fds : Nat → Option Device
  media : Device → Option NvmKvStoreMetadata
  granted : List (Nat × Device)

/-- What the calls that `kv_open` makes answer. `ready` stands for all up to the metadata,
`moved` for the read or the write of them, `initialized` for the rest of `initialize`, and
`released` for the release of the handle. `buffer` is what the metadata buffer held before, if
its id can be that of a descriptor. -/
structure OpenOutcomes (Handle : Type) where
  handle : Option Handle
  ready : Bool
  moved : Bool
  buffer : NvmKvStoreMetadata
  initialized : Bool
  released : Bool

/-- What the metadata buffer holds after the metadata of a device were to be read. -/
def OpenOutcomes.readMetadata {Handle : Type} (outcomes : OpenOutcomes Handle)
    (stored : NvmKvStoreMetadata) : NvmKvStoreMetadata :=
  if outcomes.moved then stored else outcomes.buffer

/-- The metadata with which a store is initialized, if it is, and those that the device has
then. A new store has them even if a later part of `initialize` fails. The result of the read
or the write is kept without its sign, so that a failure goes unnoticed: the store is
initialized with what the buffer holds, and a new store may have no metadata on its device. -/
def initializeMetadata {Handle : Type} (args : OpenArguments) (stored : Option NvmKvStoreMetadata)
    (outcomes : OpenOutcomes Handle) : Option NvmKvStoreMetadata × Option NvmKvStoreMetadata :=
  if outcomes.ready then
    match openMetadata args (stored.map outcomes.readMetadata) with
    | .error _ => (none, stored)
    | .ok metadata =>
        (if outcomes.initialized then some metadata else none,
          if stored = none ∧ outcomes.moved then some metadata else stored)
  else (none, stored)

/-- What happens to the stores of a process: a descriptor is opened, closed or used for
another device, another process opens a device, or a call is made. -/
inductive ManagerEvent (Device Handle : Type) where
  | descriptor (fd : Nat) (device : Option Device)
  | openedElsewhere (device : Device) (args : OpenArguments)
  | kvOpen (args : OpenArguments) (outcomes : OpenOutcomes Handle)
  | kvClose (id : Nat) (released : Bool)

namespace ManagerState

variable {Device Handle : Type} [DecidableEq Device] [DecidableEq Handle]

/-- `nvm_get_handle` fails or gives out a handle that is not in use. -/
def nvmGetHandle (state : ManagerState Device Handle) (answer : Option Handle) : Option Handle :=
  answer.filter fun handle => (state.handles handle).isNone

/-- Release a handle, unless the release fails. -/
def nvmReleaseHandle (state : ManagerState Device Handle) (handle : Handle) (released : Bool) :
    ManagerState Device Handle :=
  if released then { state with handles := Function.update state.handles handle none } else state

/-- Open a store (`NVM_KV_Store_Mgr::kv_open`), with the id that is returned. A store that is in
memory under that id is taken for the one just opened. -/
def kvOpen (state : ManagerState Device Handle) (args : OpenArguments)
    (outcomes : OpenOutcomes Handle) : Option Nat × ManagerState Device Handle :=
  match state.fds args.kvId, state.nvmGetHandle outcomes.handle with
  | some device, some handle =>
      let (initialized, stored) := initializeMetadata args (state.media device) outcomes
      let state :=
        { state with
          handles := Function.update state.handles handle (some device)
          media := Function.update state.media device stored }
      match initialized with
      | none => (none, state.nvmReleaseHandle handle outcomes.released)
      | some metadata =>
          match state.kvMap metadata.kvStoreId with
          | some _ =>
              let state := state.nvmReleaseHandle handle outcomes.released
              if outcomes.released then (some metadata.kvStoreId, state) else (none, state)
          | none =>
              (some metadata.kvStoreId,
                { state with
                  kvMap := Function.update state.kvMap metadata.kvStoreId
                    (some ⟨args.kvId, handle⟩) })
  | _, _ => (none, state)

/-- Close a store (`NVM_KV_Store_Mgr::kv_close`), with whether it was closed. -/
def kvClose (state : ManagerState Device Handle) (id : Nat) (released : Bool) :
    Bool × ManagerState Device Handle :=
  match state.kvMap id with
  | none => (false, state)
  | some store =>
      if released then
        let state := state.nvmReleaseHandle store.nvmHandle true
        (true, { state with kvMap := Function.update state.kvMap id none })
      else (false, state)

/-- One event. An id that is returned is granted for the device of the descriptor. -/
def step (state : ManagerState Device Handle) :
    ManagerEvent Device Handle → ManagerState Device Handle
  | .descriptor fd device => { state with fds := Function.update state.fds fd device }
  | .openedElsewhere device args =>
      match openMetadata args (state.media device) with
      | .error _ => state
      | .ok metadata => { state with media := Function.update state.media device (some metadata) }
  | .kvOpen args outcomes =>
      match state.kvOpen args outcomes, state.fds args.kvId with
      | (some id, opened), some device => { opened with granted := (id, device) :: opened.granted }
      | (_, opened), _ => opened
  | .kvClose id released =>
      match state.kvClose id released with
      | (true, closed) => { closed with granted := closed.granted.filter (·.1 ≠ id) }
      | (false, kept) => kept

/-- The state that events lead to, one after the other. -/
def run (state : ManagerState Device Handle) (events : List (ManagerEvent Device Handle)) :
    ManagerState Device Handle :=
  events.foldl step state

/-- The device on which a put or a delete with an id acts: the calls find the store by its
id (`kv_internal_validation`) and use its handle. -/
def writesTo (state : ManagerState Device Handle) (id : Nat) : Option Device :=
  (state.kvMap id).bind fun store => state.handles store.nvmHandle

/-- The device from which a get with an id reads. -/
def readsFrom (state : ManagerState Device Handle) (id : Nat) : Option Device :=
  (state.kvMap id).bind fun store => state.fds store.fd

/-- Every id acts on the device that it was returned for. A read through a descriptor that
was closed fails. -/
def ActsOnGranted (state : ManagerState Device Handle) : Prop :=
  ∀ id device, (id, device) ∈ state.granted →
    state.writesTo id = some device ∧ ∀ other, state.readsFrom id = some other → other = device

/-- No store is in memory, and no id was returned. -/
def Fresh (state : ManagerState Device Handle) : Prop :=
  (∀ id, state.kvMap id = none) ∧ state.granted = []

/-- The calls that `kv_open` makes succeed. -/
def OpenSucceeds (state : ManagerState Device Handle) (args : OpenArguments)
    (outcomes : OpenOutcomes Handle) (device : Device) (metadata : NvmKvStoreMetadata) : Prop :=
  state.fds args.kvId = some device ∧ (∃ handle, state.nvmGetHandle outcomes.handle = some handle) ∧
    (initializeMetadata args (state.media device) outcomes).1 = some metadata ∧
    outcomes.released = true

/-- An event leaves the devices apart: the id of a device that is opened is not taken by a
store of another device, and the descriptor of a store leads to no other device. -/
def KeepsApart (state : ManagerState Device Handle) : ManagerEvent Device Handle → Prop
  | .kvOpen args outcomes => ∀ device metadata, state.OpenSucceeds args outcomes device metadata →
      ∀ store, state.kvMap metadata.kvStoreId = some store →
        state.handles store.nvmHandle = some device
  | .descriptor fd device => ∀ id store own, state.kvMap id = some store → store.fd = fd →
      state.handles store.nvmHandle = some own → device = none ∨ device = some own
  | _ => True

/-- A condition on the state before each event. -/
def Throughout (condition : ManagerState Device Handle → ManagerEvent Device Handle → Prop) :
    ManagerState Device Handle → List (ManagerEvent Device Handle) → Prop
  | _, [] => True
  | state, event :: events => condition state event ∧ Throughout condition (state.step event) events

/-- The stores are as before, each with its descriptor and its handle. -/
structure SameStores (before after : ManagerState Device Handle) : Prop where
  kvMap : after.kvMap = before.kvMap
  fds : after.fds = before.fds
  granted : after.granted = before.granted
  handles : ∀ handle device, before.handles handle = some device →
    after.handles handle = some device

/-- Every store has a handle of its own, and its id was returned for the device of the
handle. Only stores in memory have ids that were returned. -/
structure Consistent (state : ManagerState Device Handle) : Prop where
  held : ∀ id store, state.kvMap id = some store →
    ∃ device, state.handles store.nvmHandle = some device ∧ (id, device) ∈ state.granted
  own : ∀ id other store same, state.kvMap id = some store → state.kvMap other = some same →
    store.nvmHandle = same.nvmHandle → id = other
  inMemory : ∀ id device, (id, device) ∈ state.granted → ∃ store, state.kvMap id = some store

section Opening

variable {state changed : ManagerState Device Handle} {args : OpenArguments}
  {outcomes : OpenOutcomes Handle} {device : Device} {handle : Handle}

omit [DecidableEq Device] [DecidableEq Handle] in
/-- A handle that is given was in use by nobody. -/
theorem nvmGetHandle_unused (given : state.nvmGetHandle outcomes.handle = some handle) :
    state.handles handle = none := by
  rw [nvmGetHandle, Option.filter_eq_some_iff] at given
  exact Option.isNone_iff_eq_none.mp given.2

/-- A handle that is taken and given back does not touch those in use. -/
theorem SameStores.taken_released (unused : state.handles handle = none) (device : Device)
    (stored : Option NvmKvStoreMetadata) (released : Bool) :
    SameStores state
      (nvmReleaseHandle
        { state with
          handles := Function.update state.handles handle (some device)
          media := Function.update state.media device stored } handle released) := by
  have other : ∀ used device, state.handles used = some device → used ≠ handle := by
    rintro used device bound rfl
    rw [unused] at bound
    cases bound
  rw [nvmReleaseHandle]
  split
  · refine ⟨rfl, rfl, rfl, ?_⟩
    intro used device bound
    simp only [Function.update_of_ne (other used device bound), bound]
  · refine ⟨rfl, rfl, rfl, ?_⟩
    intro used device bound
    simp only [Function.update_of_ne (other used device bound), bound]

/-- What opening a store can do: fail, return the id of a store in memory, or add a store
under an id that was free. -/
theorem kvOpen_cases (state : ManagerState Device Handle) (args : OpenArguments)
    (outcomes : OpenOutcomes Handle) :
    (∃ changed, state.kvOpen args outcomes = (none, changed) ∧ SameStores state changed) ∨
    (∃ changed device metadata store,
      state.kvOpen args outcomes = (some metadata.kvStoreId, changed) ∧
      SameStores state changed ∧ state.OpenSucceeds args outcomes device metadata ∧
      state.kvMap metadata.kvStoreId = some store) ∨
    ∃ device handle id media, state.fds args.kvId = some device ∧ state.handles handle = none ∧
      state.kvMap id = none ∧ state.kvOpen args outcomes = (some id,
        { state with
          kvMap := Function.update state.kvMap id (some ⟨args.kvId, handle⟩)
          handles := Function.update state.handles handle (some device)
          media := media }) := by
  rw [kvOpen]
  split
  · rename_i device handle bound given
    have unused := nvmGetHandle_unused given
    obtain ⟨initialized, stored⟩ : ∃ result,
        result = initializeMetadata args (state.media device) outcomes := ⟨_, rfl⟩
    rw [← stored]
    obtain ⟨metadata, media⟩ := initialized
    cases metadata with
    | none => exact Or.inl ⟨_, rfl, .taken_released unused _ _ _⟩
    | some metadata =>
      cases found : state.kvMap metadata.kvStoreId with
      | none =>
        refine Or.inr (Or.inr ⟨device, handle, metadata.kvStoreId,
          Function.update state.media device media, bound, unused, found, ?_⟩)
        simp only [found]
      | some store =>
        simp only [found]
        cases released : outcomes.released with
        | false => exact Or.inl ⟨_, rfl, .taken_released unused _ _ _⟩
        | true =>
          refine Or.inr (Or.inl ⟨_, device, metadata, store, rfl, .taken_released unused _ _ _, ?_,
            found⟩)
          exact ⟨bound, ⟨handle, given⟩, congrArg Prod.fst stored.symm, released⟩
  · exact Or.inl ⟨state, rfl, rfl, rfl, rfl, fun _ _ bound => bound⟩

/-- An id that is taken is returned all the same. -/
theorem kvOpen_taken {metadata : NvmKvStoreMetadata} {store : NvmKvStoreDevice Handle}
    (succeeds : state.OpenSucceeds args outcomes device metadata)
    (taken : state.kvMap metadata.kvStoreId = some store) :
    ∃ changed, state.kvOpen args outcomes = (some metadata.kvStoreId, changed) ∧
      SameStores state changed := by
  obtain ⟨bound, ⟨handle, given⟩, initialized, released⟩ := succeeds
  refine ⟨_, ?_, .taken_released (nvmGetHandle_unused given) device
    (initializeMetadata args (state.media device) outcomes).2 true⟩
  simp only [kvOpen, bound, given, initialized, taken, released, if_true]

end Opening

section Steps

variable {state changed next : ManagerState Device Handle} {args : OpenArguments}
  {outcomes : OpenOutcomes Handle} {device : Device} {handle : Handle}

omit [DecidableEq Device] [DecidableEq Handle] in
/-- What holds of the stores and their users holds where both are the same. -/
theorem Consistent.same (kept : Consistent state) (same : SameStores state changed) :
    Consistent changed := by
  obtain ⟨kvMap, fds, granted, handles⟩ := same
  constructor
  · intro id store found
    rw [kvMap] at found
    obtain ⟨device, bound, returned⟩ := kept.held id store found
    exact ⟨device, handles _ _ bound, granted ▸ returned⟩
  · rw [kvMap]
    exact kept.own
  · rw [kvMap, granted]
    exact kept.inMemory

omit [DecidableEq Device] [DecidableEq Handle] in
/-- So does what holds of the calls that act. -/
theorem ActsOnGranted.same (acts : ActsOnGranted state) (same : SameStores state changed) :
    ActsOnGranted changed := by
  obtain ⟨kvMap, fds, granted, handles⟩ := same
  intro id device returned
  rw [granted] at returned
  obtain ⟨writes, reads⟩ := acts id device returned
  constructor
  · rw [writesTo, Option.bind_eq_some_iff] at writes ⊢
    obtain ⟨store, found, bound⟩ := writes
    exact ⟨store, kvMap ▸ found, handles _ _ bound⟩
  · intro other read
    refine reads other ?_
    rw [readsFrom, kvMap, fds] at read
    exact read

/-- What an open does with the ids that were returned. -/
theorem step_kvOpen_cases (state : ManagerState Device Handle) (args : OpenArguments)
    (outcomes : OpenOutcomes Handle) :
    SameStores state (state.step (.kvOpen args outcomes)) ∨
    (∃ changed device metadata store, SameStores state changed ∧
      state.OpenSucceeds args outcomes device metadata ∧
      state.kvMap metadata.kvStoreId = some store ∧
      state.step (.kvOpen args outcomes) =
        { changed with granted := (metadata.kvStoreId, device) :: changed.granted }) ∨
    ∃ device handle id media, state.fds args.kvId = some device ∧ state.handles handle = none ∧
      state.kvMap id = none ∧ state.step (.kvOpen args outcomes) =
        { state with
          kvMap := Function.update state.kvMap id (some ⟨args.kvId, handle⟩)
          handles := Function.update state.handles handle (some device)
          media := media
          granted := (id, device) :: state.granted } := by
  rcases state.kvOpen_cases args outcomes with ⟨changed, result, same⟩ |
    ⟨changed, device, metadata, store, result, same, succeeds, found⟩ |
    ⟨device, handle, id, media, bound, unused, free, result⟩
  · left
    simp only [step, result]
    exact same
  · refine Or.inr (Or.inl ⟨changed, device, metadata, store, same, succeeds, found, ?_⟩)
    simp only [step, result, succeeds.1]
  · refine Or.inr (Or.inr ⟨device, handle, id, media, bound, unused, free, ?_⟩)
    simp only [step, result, bound]

/-- Closing a store takes its id and its handle, or changes nothing. -/
theorem step_kvClose_cases (state : ManagerState Device Handle) (id : Nat) (released : Bool) :
    state.step (.kvClose id released) = state ∨
    ∃ store, state.kvMap id = some store ∧ state.step (.kvClose id released) =
      { state with
        kvMap := Function.update state.kvMap id none
        handles := Function.update state.handles store.nvmHandle none
        granted := state.granted.filter (·.1 ≠ id) } := by
  cases found : state.kvMap id with
  | none =>
    left
    simp only [step, kvClose, found]
  | some store =>
    cases released with
    | false =>
      left
      simp only [step, kvClose, found, Bool.false_eq_true, if_false]
    | true =>
      right
      refine ⟨store, rfl, ?_⟩
      simp only [step, kvClose, found, if_true, nvmReleaseHandle]

end Steps

section Events

variable {state : ManagerState Device Handle}

omit [DecidableEq Device] [DecidableEq Handle] in
/-- A store in memory has another handle than the one that was given out now. -/
theorem Consistent.unlike {handle : Handle} {id : Nat} {store : NvmKvStoreDevice Handle}
    (kept : Consistent state) (unused : state.handles handle = none)
    (found : state.kvMap id = some store) : store.nvmHandle ≠ handle := by
  rintro rfl
  obtain ⟨_, bound, -⟩ := kept.held id store found
  rw [unused] at bound
  cases bound

omit [DecidableEq Device] [DecidableEq Handle] in
/-- A store in memory may be returned once more, for whatever device. -/
theorem Consistent.returned {id : Nat} {store : NvmKvStoreDevice Handle} (kept : Consistent state)
    (found : state.kvMap id = some store) (device : Device) :
    Consistent { state with granted := (id, device) :: state.granted } := by
  constructor
  · intro other held remembered
    obtain ⟨own, bound, returned⟩ := kept.held other held remembered
    exact ⟨own, bound, List.mem_cons_of_mem _ returned⟩
  · exact kept.own
  · intro other opened returned
    rcases List.mem_cons.mp returned with now | earlier
    · cases now
      exact ⟨store, found⟩
    · exact kept.inMemory other opened earlier

omit [DecidableEq Device] in
/-- A store is added under a free id, with a handle that was not in use. -/
theorem Consistent.added {handle : Handle} {id : Nat} (kept : Consistent state)
    (unused : state.handles handle = none) (fd : Nat) (device : Device)
    (media : Device → Option NvmKvStoreMetadata) :
    Consistent { state with
      kvMap := Function.update state.kvMap id (some ⟨fd, handle⟩)
      handles := Function.update state.handles handle (some device)
      media := media
      granted := (id, device) :: state.granted } := by
  constructor
  · intro another store found
    dsimp only at found ⊢
    by_cases new : another = id
    · subst new
      rw [Function.update_self] at found
      cases found
      exact ⟨device, Function.update_self .., List.mem_cons_self⟩
    · rw [Function.update_of_ne new] at found
      obtain ⟨own, bound, returned⟩ := kept.held another store found
      refine ⟨own, ?_, List.mem_cons_of_mem _ returned⟩
      rw [Function.update_of_ne (kept.unlike unused found), bound]
  · intro first second store same foundFirst foundSecond alike
    dsimp only at foundFirst foundSecond
    by_cases newFirst : first = id
    · by_cases newSecond : second = id
      · rw [newFirst, newSecond]
      · subst newFirst
        rw [Function.update_self] at foundFirst
        rw [Function.update_of_ne newSecond] at foundSecond
        cases foundFirst
        exact absurd alike.symm (kept.unlike unused foundSecond)
    · rw [Function.update_of_ne newFirst] at foundFirst
      by_cases newSecond : second = id
      · subst newSecond
        rw [Function.update_self] at foundSecond
        cases foundSecond
        exact absurd alike (kept.unlike unused foundFirst)
      · rw [Function.update_of_ne newSecond] at foundSecond
        exact kept.own first second store same foundFirst foundSecond alike
  · intro another device returned
    dsimp only
    by_cases new : another = id
    · subst new
      exact ⟨_, Function.update_self ..⟩
    · rw [Function.update_of_ne new]
      rcases List.mem_cons.mp returned with now | earlier
      · cases now
        exact absurd rfl new
      · exact kept.inMemory another device earlier

omit [DecidableEq Device] in
/-- A store is closed with its handle, which no other store in memory has. -/
theorem Consistent.closed {id : Nat} {store : NvmKvStoreDevice Handle} (kept : Consistent state)
    (found : state.kvMap id = some store) :
    Consistent { state with
      kvMap := Function.update state.kvMap id none
      handles := Function.update state.handles store.nvmHandle none
      granted := state.granted.filter (·.1 ≠ id) } := by
  constructor
  · intro another held remains
    dsimp only at remains ⊢
    by_cases closed : another = id
    · subst closed
      rw [Function.update_self] at remains
      cases remains
    · rw [Function.update_of_ne closed] at remains
      obtain ⟨own, bound, returned⟩ := kept.held another held remains
      refine ⟨own, ?_, List.mem_filter.mpr ⟨returned, decide_eq_true closed⟩⟩
      rw [Function.update_of_ne, bound]
      intro alike
      exact closed (kept.own another id held store remains found alike)
  · intro first second store same foundFirst foundSecond alike
    dsimp only at foundFirst foundSecond
    rw [Function.update_apply] at foundFirst foundSecond
    split_ifs at foundFirst foundSecond
    exact kept.own first second store same foundFirst foundSecond alike
  · intro another device returned
    obtain ⟨returned, remains⟩ := List.mem_filter.mp returned
    obtain ⟨held, found⟩ := kept.inMemory another device returned
    exact ⟨held, (Function.update_of_ne (of_decide_eq_true remains) _ _).trans found⟩

/-- Every event keeps the stores apart in memory, on whatever devices they are. -/
theorem Consistent.step (kept : Consistent state) (event : ManagerEvent Device Handle) :
    Consistent (state.step event) := by
  cases event with
  | descriptor fd device => exact ⟨kept.held, kept.own, kept.inMemory⟩
  | openedElsewhere device args =>
    rw [ManagerState.step]
    split
    · exact kept
    · exact ⟨kept.held, kept.own, kept.inMemory⟩
  | kvOpen args outcomes =>
    rcases state.step_kvOpen_cases args outcomes with same |
      ⟨changed, device, metadata, store, same, -, found, result⟩ |
      ⟨device, handle, id, media, -, unused, -, result⟩
    · exact kept.same same
    · rw [result]
      exact (kept.same same).returned (same.kvMap ▸ found) device
    · rw [result]
      exact kept.added unused args.kvId device media
  | kvClose id released =>
    rcases state.step_kvClose_cases id released with same | ⟨store, found, result⟩
    · rw [same]
      exact kept
    · rw [result]
      exact kept.closed found

/-- A descriptor is bound anew. Reads of a store that is open under it still go where its writes
go. -/
theorem ActsOnGranted.rebound (acts : ActsOnGranted state) {fd : Nat} {device : Option Device}
    (apart : state.KeepsApart (.descriptor fd device)) :
    ActsOnGranted (state.step (.descriptor fd device)) := by
  intro id own returned
  obtain ⟨writes, reads⟩ := acts id own returned
  refine ⟨writes, ?_⟩
  intro other read
  rw [readsFrom, Option.bind_eq_some_iff] at read
  obtain ⟨store, found, bound⟩ := read
  simp only [ManagerState.step] at found bound
  by_cases own_fd : store.fd = fd
  · have written : state.handles store.nvmHandle = some own := by
      rw [writesTo, found] at writes
      exact writes
    rw [own_fd, Function.update_self] at bound
    rcases apart id store own found own_fd written with closed | same
    · rw [closed] at bound
      cases bound
    · rw [same] at bound
      exact (Option.some.inj bound).symm
  · rw [Function.update_of_ne own_fd] at bound
    refine reads other ?_
    rw [readsFrom, found]
    exact bound

omit [DecidableEq Device] [DecidableEq Handle] in
/-- A store in memory is returned for the device that its handle is for. -/
theorem ActsOnGranted.returned {id : Nat} {store : NvmKvStoreDevice Handle} {device : Device}
    (acts : ActsOnGranted state) (kept : Consistent state) (found : state.kvMap id = some store)
    (written : state.handles store.nvmHandle = some device) :
    ActsOnGranted { state with granted := (id, device) :: state.granted } := by
  obtain ⟨own, held, returned⟩ := kept.held id store found
  obtain rfl : own = device := Option.some.inj (held.symm.trans written)
  intro other opened now
  rcases List.mem_cons.mp now with now | earlier
  · cases now
    exact acts _ _ returned
  · exact acts other opened earlier

omit [DecidableEq Device] in
/-- A store is added for the device of the descriptor. The others act on what they did. -/
theorem ActsOnGranted.added {handle : Handle} {id fd : Nat} {device : Device}
    (acts : ActsOnGranted state) (kept : Consistent state) (bound : state.fds fd = some device)
    (unused : state.handles handle = none) (free : state.kvMap id = none)
    (media : Device → Option NvmKvStoreMetadata) :
    ActsOnGranted { state with
      kvMap := Function.update state.kvMap id (some ⟨fd, handle⟩)
      handles := Function.update state.handles handle (some device)
      media := media
      granted := (id, device) :: state.granted } := by
  intro another own returned
  rcases List.mem_cons.mp returned with now | earlier
  · cases now
    simp only [writesTo, readsFrom, Function.update_self, Option.bind_some, bound]
    exact ⟨trivial, fun other same => (Option.some.inj same).symm⟩
  · obtain ⟨store, found⟩ := kept.inMemory another own earlier
    have other : another ≠ id := by
      rintro rfl
      rw [free] at found
      cases found
    have before := acts another own earlier
    simp only [writesTo, readsFrom, found, Option.bind_some] at before
    simp only [writesTo, readsFrom, Function.update_of_ne other, found, Option.bind_some,
      Function.update_of_ne (kept.unlike unused found)]
    exact before

omit [DecidableEq Device] in
/-- A store is closed. The others keep their handles. -/
theorem ActsOnGranted.closed {id : Nat} {store : NvmKvStoreDevice Handle}
    (acts : ActsOnGranted state) (kept : Consistent state) (found : state.kvMap id = some store) :
    ActsOnGranted { state with
      kvMap := Function.update state.kvMap id none
      handles := Function.update state.handles store.nvmHandle none
      granted := state.granted.filter (·.1 ≠ id) } := by
  intro another own returned
  obtain ⟨returned, remains⟩ := List.mem_filter.mp returned
  have other : another ≠ id := of_decide_eq_true remains
  obtain ⟨held, inMemory⟩ := kept.inMemory another own returned
  have unlike : held.nvmHandle ≠ store.nvmHandle := fun alike =>
    other (kept.own another id held store inMemory found alike)
  have before := acts another own returned
  simp only [writesTo, readsFrom, inMemory, Option.bind_some] at before
  simp only [writesTo, readsFrom, Function.update_of_ne other, inMemory, Option.bind_some,
    Function.update_of_ne unlike]
  exact before

/-- An event that leaves the devices apart lets every id act on the device that it was
returned for: when its id was taken, the store in memory is one of the device that was opened. -/
theorem ActsOnGranted.step (acts : ActsOnGranted state) (kept : Consistent state)
    {event : ManagerEvent Device Handle} (apart : state.KeepsApart event) :
    ActsOnGranted (state.step event) := by
  cases event with
  | descriptor fd device => exact acts.rebound apart
  | openedElsewhere device args =>
    rw [ManagerState.step]
    split
    · exact acts
    · exact acts
  | kvOpen args outcomes =>
    rcases state.step_kvOpen_cases args outcomes with same |
      ⟨changed, device, metadata, store, same, succeeds, found, result⟩ |
      ⟨device, handle, id, media, bound, unused, free, result⟩
    · exact acts.same same
    · have written := apart device metadata succeeds store found
      rw [result]
      exact (acts.same same).returned (kept.same same) (same.kvMap ▸ found)
        (same.handles _ _ written)
    · rw [result]
      exact acts.added kept bound unused free media
  | kvClose id released =>
    rcases state.step_kvClose_cases id released with same | ⟨store, found, result⟩
    · rw [same]
      exact acts
    · rw [result]
      exact acts.closed kept found

/-- An event after which every id acts on its devices left the devices apart. -/
theorem Consistent.apart (kept : Consistent state) {event : ManagerEvent Device Handle}
    (after : ActsOnGranted (state.step event)) : state.KeepsApart event := by
  cases event with
  | descriptor fd device =>
    intro id store own found same written
    obtain ⟨device', held, returned⟩ := kept.held id store found
    obtain rfl : device' = own := Option.some.inj (held.symm.trans written)
    cases device with
    | none => exact Or.inl rfl
    | some other =>
      right
      have reads := (after id device' returned).2 other
      rw [readsFrom, ManagerState.step] at reads
      simp only [found, Option.bind_some, same, Function.update_self, forall_const] at reads
      rw [reads]
  | kvOpen args outcomes =>
    intro device metadata succeeds store found
    obtain ⟨changed, result, same⟩ := kvOpen_taken succeeds found
    have next : state.step (.kvOpen args outcomes) =
        { changed with granted := (metadata.kvStoreId, device) :: changed.granted } := by
      simp only [ManagerState.step, result, succeeds.1]
    rw [next] at after
    obtain ⟨writes, -⟩ := after metadata.kvStoreId device List.mem_cons_self
    obtain ⟨own, held, -⟩ := kept.held _ store found
    simp only [writesTo, same.kvMap, found, Option.bind_some, same.handles _ _ held] at writes
    rw [held, writes]
  | openedElsewhere device args => exact trivial
  | kvClose id released => exact trivial

end Events

omit [DecidableEq Device] [DecidableEq Handle] in
/-- A manager without stores is consistent. -/
theorem Fresh.consistent {state : ManagerState Device Handle} (fresh : Fresh state) :
    Consistent state := by
  obtain ⟨empty, none⟩ := fresh
  constructor
  · intro id store found
    rw [empty] at found
    cases found
  · intro id other store same found
    rw [empty] at found
    cases found
  · intro id device returned
    rw [none] at returned
    cases returned

omit [DecidableEq Device] [DecidableEq Handle] in
/-- And no call acts. -/
theorem Fresh.acts {state : ManagerState Device Handle} (fresh : Fresh state) :
    ActsOnGranted state := by
  intro id device returned
  rw [fresh.2] at returned
  cases returned

/-- From a consistent state on, every id acts on its devices in all states just when every
event leaves the devices apart. Induction follows the events. -/
theorem actsOnGranted_run_iff {state : ManagerState Device Handle} (kept : Consistent state)
    (acts : ActsOnGranted state) (events : List (ManagerEvent Device Handle)) :
    (∀ earlier, earlier <+: events → ActsOnGranted (state.run earlier)) ↔
      Throughout KeepsApart state events := by
  induction events generalizing state with
  | nil =>
    refine iff_of_true ?_ trivial
    intro earlier inside
    rw [List.prefix_nil.mp inside]
    exact acts
  | cons event events inductionHypothesis =>
    constructor
    · intro always
      have first : ActsOnGranted (state.step event) :=
        always [event] ⟨events, rfl⟩
      refine ⟨kept.apart first, (inductionHypothesis (kept.step event) first).mp ?_⟩
      intro earlier inside
      exact always (event :: earlier) (List.cons_prefix_cons.mpr ⟨rfl, inside⟩)
    · rintro ⟨apart, rest⟩ earlier inside
      rcases List.prefix_cons_iff.mp inside with none | ⟨shorter, rfl, within⟩
      · rw [none]
        exact acts
      · have first := acts.step kept apart
        exact (inductionHypothesis (kept.step event) first).mpr rest shorter within

end ManagerState

/-- In whatever order devices are opened and closed, every id acts on the device that it was
returned for just when no device is opened whose id is taken by a store of another device,
and no descriptor of a store is used for another device. -/
theorem store_identity_iff {Device Handle : Type} [DecidableEq Device] [DecidableEq Handle]
    (start : ManagerState Device Handle) (fresh : start.Fresh)
    (events : List (ManagerEvent Device Handle)) :
    (∀ earlier, earlier <+: events → (start.run earlier).ActsOnGranted) ↔
      start.Throughout ManagerState.KeepsApart events :=
  ManagerState.actsOnGranted_run_iff fresh.consistent fresh.acts events

/-- A process that has just started; no device has a store. -/
def startedManager : ManagerState Nat Nat where
  kvMap := fun _ => none
  handles := fun _ => none
  fds := fun _ => none
  media := fun _ => none
  granted := []

/-- The manager of the example has no store. -/
theorem startedManager_fresh : startedManager.Fresh := ⟨fun _ => rfl, rfl⟩

/-- Open a descriptor on a device, and a store with four pools under it. All calls
succeed; the handle has the number of the descriptor. -/
def openStore (fd device : Nat) : List (ManagerEvent Nat Nat) :=
  let args : OpenArguments := ⟨fd, 1, 4, 0⟩
  [.descriptor fd (some device),
    .kvOpen args ⟨some fd, true, true, args.newMetadata, true, true⟩]

/-- After one opening it has the one store, under the id that was given. -/
theorem openStore_kvMap (id : Nat) :
    (startedManager.run (openStore 3 0)).kvMap id = if id = 3 then some ⟨3, 3⟩ else none :=
  Function.update_apply _ _ _ _

/-- Two new devices under two descriptors. -/
theorem store_identity_two_devices :
    (startedManager.run (openStore 3 0 ++ openStore 4 1)).ActsOnGranted := by
  refine (store_identity_iff startedManager startedManager_fresh
    (openStore 3 0 ++ openStore 4 1)).mpr ?_ _ List.prefix_rfl
  refine ⟨?_, ?_, ?_, ?_, trivial⟩
  · intro id store own found
    cases found
  · intro device metadata _ store found
    cases found
  · intro id store own found same written
    replace found := (openStore_kvMap id).symm.trans found
    split_ifs at found
    cases found
    cases same
  · rintro device metadata ⟨bound, -, initialized, -⟩ store found
    cases bound
    cases initialized
    cases found

/-- A device under the first descriptor, and another one whose store was created under that
descriptor in another process: the second has the id of the first. -/
theorem store_identity_shared_id :
    ¬ ∀ (start : ManagerState Nat Nat), start.Fresh → ∀ events,
      (start.run events).ActsOnGranted := by
  intro identity
  have acts := identity startedManager startedManager_fresh
    ([.openedElsewhere 1 ⟨3, 1, 4, 0⟩] ++ openStore 3 0 ++ openStore 4 1) 3 1 (by decide)
  exact absurd acts.1 (by decide)

end Nvmkv
