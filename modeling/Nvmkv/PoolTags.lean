import Nvmkv.PoolRestart

/-!
# Tags of pools and failed calls

The tag of a pool is kept in an array and, from the tag to the id, in a map. As long as
the writes of the manager succeed the two agree about every pool that a user created:
the map has the tags of the live pools and nothing else. The default pool is not in the
map; its place in the array is memory that nothing initialises and nothing reads.

When a write fails, creating and deleting take back some of what they did. What they
take back are the bits and the count. A tag entered by a failed creation stays in the
map, and a failed deletion leaves tags blank and takes marks away that earlier
deletions made; the theorems name the states in which none of this happens.
-/

namespace Nvmkv

variable {store : NvmKvStore} {mgr : NvmKvPoolMgr}

/-- The map of tags is exact: it has the tags of the live pools other than the default
one, no two of them have the same tag, and creating a pool with a tag of the map finds
the pool that has it. -/
structure TagsExact (store : NvmKvStore) (mgr : NvmKvPoolMgr) : Prop where
  named : ∀ s i, mgr.tagsMap s = some i ↔
    i ≠ defaultPoolId.toNat ∧ mgr.Live i ∧ (mgr.poolTags i).str = s ∧ s ≠ []
  distinct : ∀ i j, i ≠ defaultPoolId.toNat → j ≠ defaultPoolId.toNat → mgr.Live i →
    mgr.Live j → (mgr.poolTags i).str ≠ [] → (mgr.poolTags i).str = (mgr.poolTags j).str → i = j
  known : ∀ (poolTag : NvmKvPoolTag) i, mgr.tagsMap poolTag.str = some i →
    ∀ written media, mgr.createPool store (some poolTag) written media = (.ok i, mgr, media)

/-- Through all creations, deletions and clearings whose writes succeed, the map of tags
stays exact. -/
theorem tags_exact {state : PoolState} (reached : PoolState.Reached store (· = true) state) :
    TagsExact store state.mgr := by
  have kept := (Mirrored.reached reached).tags
  have named : ∀ s i, state.mgr.tagsMap s = some i ↔
      i ≠ defaultPoolId.toNat ∧ state.mgr.Live i ∧ (state.mgr.poolTags i).str = s ∧ s ≠ [] := by
    intro s i
    rw [kept.named]
    exact and_congr_left fun _ => Nat.pos_iff_ne_zero
  refine ⟨named, ?_, ?_⟩
  · intro i j user other lives alive tagged same
    have entry := (named _ i).mpr ⟨user, lives, rfl, tagged⟩
    have twin := (named _ j).mpr ⟨other, alive, same.symm, tagged⟩
    rw [entry] at twin
    exact Option.some.inj twin
  · intro poolTag i mapped written media
    have nonempty : poolTag.str ≠ [] := ((named _ i).mp mapped).2.2.2
    have known : state.mgr.knownPool (some poolTag) = some i := by
      simp only [NvmKvPoolMgr.knownPool, if_neg nonempty, mapped]
    rw [NvmKvPoolMgr.createPool, known]

/-- A tag of one letter. -/
def letterTag (letter : UInt8) : NvmKvPoolTag :=
  ⟨#v[letter, 0, 0, 0, 0, 0, 0, 0, 0, 0, 0, 0, 0, 0, 0, 0]⟩

/-- A store of small pools just created, whose tag memory holds what it may hold. -/
def newPools (memory : NvmKvPoolTag) : PoolState :=
  PoolState.created NvmKvStore.terabyteStore (fun _ => memory) ⟨.zero, .zero, fun _ => .zero, 0⟩

/-- A second pool with another tag keeps the tags exact. -/
theorem tags_exact_created :
    TagsExact NvmKvStore.terabyteStore
      ((newPools (letterTag 97)).mgr.createPool NvmKvStore.terabyteStore (some (letterTag 98)) true
        (newPools (letterTag 97)).media).2.1 := by
  have created : PoolState.Reached NvmKvStore.terabyteStore (· = true) (newPools (letterTag 97)) :=
    .created _ _
  exact tags_exact (created.step rfl (.create (some (letterTag 98)) rfl))

/-- The default pool is in use, and what is in its place of the array is not in the
map. -/
theorem default_pool_not_mapped :
    ¬ ∀ (store : NvmKvStore) (state : PoolState), PoolState.Reached store (· = true) state →
      ∀ s i, state.mgr.tagsMap s = some i ↔
        state.mgr.Live i ∧ (state.mgr.poolTags i).str = s ∧ s ≠ [] := by
  intro promised
  have mapped := (promised NvmKvStore.terabyteStore (newPools (letterTag 97))
    (.created _ _) [97] 0).mpr ⟨⟨by decide, by decide⟩, by decide, by decide⟩
  cases mapped

/-- There is an id to give out: the count is not above the limit and a bit is clear. -/
def NvmKvPoolMgr.HasRoom (store : NvmKvStore) (mgr : NvmKvPoolMgr) : Prop :=
  mgr.totalNoPools.toNat ≤ store.maxPools ∧ ∃ i < store.maxPools, bitmapTest mgr.inUse i = false

/-- A tag that names nothing: none is given or it is empty. -/
def BlankTag (poolTag : Option NvmKvPoolTag) : Prop :=
  ∀ tag, poolTag = some tag → tag.str = []

/-- What a failed creation should leave alone. -/
def CreationUndone (before after : NvmKvPoolMgr) : Prop :=
  (∀ i, bitmapTest after.inUse i = bitmapTest before.inUse i) ∧
    after.totalNoPools = before.totalNoPools ∧ after.tagsMap = before.tagsMap

/-- A creation with the tag returns ids that are in use only. -/
def CreatesInUse (store : NvmKvStore) (mgr : NvmKvPoolMgr) (poolTag : Option NvmKvPoolTag) :
    Prop :=
  ∀ written media i, (mgr.createPool store poolTag written media).1 = .ok i →
    bitmapTest (mgr.createPool store poolTag written media).2.1.inUse i = true

namespace NvmKvPoolMgr

variable {poolTag : Option NvmKvPoolTag} {poolId : Nat}

/-- No pool is known by a blank tag. -/
theorem knownPool_of_blank (blank : BlankTag poolTag) : mgr.knownPool poolTag = none := by
  cases poolTag with
  | none => rfl
  | some tag => simp only [knownPool, if_pos (blank tag rfl)]

/-- Without room a creation is refused and nothing has changed. -/
theorem createPool_no_room (unknown : mgr.knownPool poolTag = none)
    (full : ¬ mgr.HasRoom store) (written : Bool) (media : PoolMedia) :
    mgr.createPool store poolTag written media = (.error .invalidInput, mgr, media) := by
  rw [createPool, unknown]
  dsimp only
  by_cases many : store.maxPools < mgr.totalNoPools.toNat
  · rw [if_pos many, createFailed]
    simp only [totalNoPools_add_sub]
  · rw [if_neg many]
    cases search : bitmapFfa mgr.inUse store.maxPools with
    | mk found inUse =>
      cases found with
      | none => simp only [createFailed, totalNoPools_add_sub, bitmapFfa_none search]
      | some poolId =>
        obtain ⟨inside, clear, -⟩ := bitmapFfa_some search
        exact absurd ⟨Nat.le_of_not_lt many, poolId, inside, clear⟩ full

/-- With room a clear id is given out, and taken back when the write fails. A refusal would mean
that the search found no clear bit. -/
theorem createPool_room (unknown : mgr.knownPool poolTag = none) (room : mgr.HasRoom store)
    (written : Bool) (media : PoolMedia) :
    ∃ poolId, bitmapTest mgr.inUse poolId = false ∧
      mgr.createPool store poolTag written media =
        if written then
          (.ok poolId, mgr.allocated poolTag poolId,
            (store.persistStoreInfo (mgr.allocated poolTag poolId)
              [.kvstoreMetadata, .bmInuse, .poolTags] (some poolId) true media).2)
        else
          (.error .io, (mgr.allocated poolTag poolId).createFailed (some poolId), media) := by
  obtain ⟨_, known, _⟩ | ⟨_, refused⟩ | ⟨poolId, _, _, clear, result⟩ :=
    mgr.createPool_cases store poolTag written media
  · rw [unknown] at known
    cases known
  · obtain ⟨few, index, inside, clear⟩ := room
    obtain ⟨found, search⟩ := bitmapFfa_of_clear inside clear
    rw [createPool, unknown] at refused
    dsimp only at refused
    rw [if_neg (Nat.not_lt_of_le few)] at refused
    have split : bitmapFfa mgr.inUse store.maxPools =
        (some found, (bitmapFfa mgr.inUse store.maxPools).2) := Prod.ext search rfl
    rw [split] at refused
    cases written with
    | true => simp [NvmKvStore.persistStoreInfo] at refused
    | false => simp [NvmKvStore.persistStoreInfo] at refused
  · exact ⟨poolId, clear, result⟩

/-- A blank tag is not remembered. -/
theorem allocated_blank (blank : BlankTag poolTag) (poolId : Nat) :
    (mgr.allocated poolTag poolId).tagsMap = mgr.tagsMap := by
  cases poolTag with
  | none => rfl
  | some tag => simp only [allocated, if_pos (blank tag rfl)]

/-- A tag that was not known is remembered for the id given out. -/
theorem allocated_tag {tag : NvmKvPoolTag} (nonempty : tag.str ≠ [])
    (unknown : mgr.knownPool (some tag) = none) (poolId : Nat) :
    (mgr.allocated (some tag) poolId).tagsMap tag.str = some poolId := by
  have absent : mgr.tagsMap tag.str = none := by
    simpa only [knownPool, if_neg nonempty] using unknown
  simp only [allocated, if_neg nonempty, TagsMap.insert, absent, if_true, Function.update_self]

/-- With a tag that names nothing only ids in use are returned. -/
theorem createsInUse_of_blank (blank : BlankTag poolTag) : CreatesInUse store mgr poolTag := by
  intro written media i returned
  have unknown : mgr.knownPool poolTag = none := knownPool_of_blank blank
  obtain ⟨_, known, _⟩ | ⟨_, refused⟩ | ⟨poolId, _, _, _, result⟩ :=
    mgr.createPool_cases store poolTag written media
  · rw [unknown] at known
    cases known
  · rw [refused] at returned
    cases returned
  · rw [result] at returned ⊢
    cases written with
    | true =>
      cases returned
      simp [allocated, bitmapTest_set]
    | false => cases returned

/-- The id that is taken back has the bit it had, and so have all others. -/
theorem createFailed_bits (poolTag : Option NvmKvPoolTag) (positive : 0 < poolId)
    (clear : bitmapTest mgr.inUse poolId = false)
    (i : Nat) :
    bitmapTest ((mgr.allocated poolTag poolId).createFailed (some poolId)).inUse i =
      bitmapTest mgr.inUse i := by
  rw [createFailed]
  dsimp only
  rw [if_pos positive]
  by_cases same : i = poolId
  · simp [same, bitmapTest_clear, clear]
  · simp [same, bitmapTest_clear, allocated, bitmapTest_set]

end NvmKvPoolMgr

/-- A creation that fails leaves everything as it was exactly when there was no id to
give out or no tag to remember; otherwise the tag stays in the map, and the next
creation with it returns an id that is not in use. -/
theorem create_failed_undone_iff (defaultInUse : bitmapTest mgr.inUse 0 = true)
    (poolTag : Option NvmKvPoolTag) (written : Bool) (media : PoolMedia) {code : NvmErrorCode}
    (failed : (mgr.createPool store poolTag written media).1 = .error code) :
    (CreationUndone mgr (mgr.createPool store poolTag written media).2.1 ↔
        ¬ mgr.HasRoom store ∨ BlankTag poolTag) ∧
      (CreatesInUse store (mgr.createPool store poolTag written media).2.1 poolTag ↔
        ¬ mgr.HasRoom store ∨ BlankTag poolTag) := by
  have unknown : mgr.knownPool poolTag = none := by
    cases known : mgr.knownPool poolTag with
    | none => rfl
    | some poolId =>
      rw [NvmKvPoolMgr.createPool, known] at failed
      cases failed
  by_cases room : mgr.HasRoom store
  · obtain ⟨poolId, clear, result⟩ :=
      NvmKvPoolMgr.createPool_room unknown room written media
    have positive : 0 < poolId := by
      apply Nat.pos_of_ne_zero
      intro zero
      rw [zero, defaultInUse] at clear
      cases clear
    cases written with
    | true =>
      rw [result] at failed
      cases failed
    | false =>
      have bits := NvmKvPoolMgr.createFailed_bits poolTag positive clear
      rw [result, if_neg (by decide)]
      dsimp only
      by_cases blank : BlankTag poolTag
      · have undone : CreationUndone mgr
            ((mgr.allocated poolTag poolId).createFailed (some poolId)) :=
          ⟨bits, totalNoPools_add_sub _, NvmKvPoolMgr.allocated_blank blank poolId⟩
        exact ⟨iff_of_true undone (.inr blank),
          iff_of_true (NvmKvPoolMgr.createsInUse_of_blank blank) (.inr blank)⟩
      · have neither : ¬ (¬ mgr.HasRoom store ∨ BlankTag poolTag) := by
          rintro (full | blankAfterAll)
          · exact full room
          · exact blank blankAfterAll
        obtain ⟨tag, given, nonempty⟩ : ∃ tag, poolTag = some tag ∧ tag.str ≠ [] := by
          by_contra none
          apply blank
          intro tag given
          by_contra nonempty
          exact none ⟨tag, given, nonempty⟩
        subst given
        have remembered := NvmKvPoolMgr.allocated_tag nonempty unknown poolId
        refine ⟨iff_of_false ?_ neither, iff_of_false ?_ neither⟩
        · rintro ⟨_, _, same⟩
          have absent : mgr.tagsMap tag.str = none := by
            simpa only [NvmKvPoolMgr.knownPool, if_neg nonempty] using unknown
          have kept : (mgr.allocated (some tag) poolId).tagsMap = mgr.tagsMap := same
          rw [kept, absent] at remembered
          cases remembered
        · intro inUse
          have known : ((mgr.allocated (some tag) poolId).createFailed (some poolId)).knownPool
              (some tag) = some poolId := by
            simp only [NvmKvPoolMgr.knownPool, if_neg nonempty]
            exact remembered
          have stray := inUse true media poolId (by rw [NvmKvPoolMgr.createPool, known])
          rw [NvmKvPoolMgr.createPool, known] at stray
          dsimp only at stray
          rw [bits, clear] at stray
          cases stray
  · have refused := NvmKvPoolMgr.createPool_no_room unknown room
    rw [refused written media]
    refine ⟨iff_of_true ⟨fun _ => rfl, rfl, rfl⟩ (.inl room), iff_of_true ?_ (.inl room)⟩
    intro again media' i returned
    rw [refused again media'] at returned
    cases returned

/-- The creation of a first pool without a tag, whose write fails. -/
theorem create_failed_undone_untagged :
    (CreationUndone (newPools .zero).mgr ((newPools .zero).mgr.createPool
          NvmKvStore.terabyteStore none false (newPools .zero).media).2.1 ↔
        ¬ (newPools .zero).mgr.HasRoom NvmKvStore.terabyteStore ∨ BlankTag none) ∧
      (CreatesInUse NvmKvStore.terabyteStore ((newPools .zero).mgr.createPool
          NvmKvStore.terabyteStore none false (newPools .zero).media).2.1 none ↔
        ¬ (newPools .zero).mgr.HasRoom NvmKvStore.terabyteStore ∨ BlankTag none) :=
  create_failed_undone_iff (by decide) none false (newPools .zero).media rfl

/-- The first pool of a store, with the tag `a`, whose write fails: the map has the tag
for an id that is not in use. -/
theorem failed_creation_remembered :
    ¬ ∀ (store : NvmKvStore) (mgr : NvmKvPoolMgr) (poolTag : Option NvmKvPoolTag)
        (written : Bool) (media : PoolMedia) (code : NvmErrorCode),
      (mgr.createPool store poolTag written media).1 = .error code →
        CreationUndone mgr (mgr.createPool store poolTag written media).2.1 ∧
          CreatesInUse store (mgr.createPool store poolTag written media).2.1 poolTag := by
  intro promised
  obtain ⟨_, _, same⟩ := (promised NvmKvStore.terabyteStore (newPools .zero).mgr
    (some (letterTag 97)) false (newPools .zero).media .io rfl).1
  have remembered := congrFun same [97]
  exact absurd remembered (by decide)

namespace NvmKvPoolMgr

/-- Marking a pool leaves the bits of those in use. -/
theorem markDeleted_inUse (poolId : Nat) : (mgr.markDeleted poolId).inUse = mgr.inUse := by
  rw [markDeleted]
  split <;> rfl

/-- So does the undoing. -/
theorem unmarkDeleted_inUse (poolId : Nat) : (mgr.unmarkDeleted poolId).inUse = mgr.inUse := by
  rw [unmarkDeleted]
  split <;> rfl

/-- What marking a list of different pools does to those in use: they have the mark, their
tags are blank and the map does not have their names. By induction along the list. -/
theorem markDeleted_foldl_eq {ids : List Nat} (different : ids.Nodup) (mgr : NvmKvPoolMgr) :
    let marked := ids.foldl markDeleted mgr
    marked.inUse = mgr.inUse ∧
      (∀ i, bitmapTest marked.deleted i =
        (bitmapTest mgr.deleted i || decide (i ∈ ids) && bitmapTest mgr.inUse i)) ∧
      (∀ i, marked.poolTags i =
        if i ∈ ids ∧ bitmapTest mgr.inUse i = true then .zero else mgr.poolTags i) ∧
      ∀ s, marked.tagsMap s =
        if ∃ i ∈ ids, bitmapTest mgr.inUse i = true ∧ (mgr.poolTags i).str = s then none
        else mgr.tagsMap s := by
  induction ids generalizing mgr with
  | nil => simp
  | cons id ids inductionHypothesis =>
    obtain ⟨fresh, different⟩ := List.nodup_cons.mp different
    obtain ⟨inUse, deleted, tags, tagsMap⟩ := inductionHypothesis different (mgr.markDeleted id)
    rw [markDeleted_inUse] at inUse deleted tags tagsMap
    simp only [List.foldl_cons]
    by_cases used : bitmapTest mgr.inUse id = true
    · rw [markDeleted, if_pos used] at *
      refine ⟨inUse, ?_, ?_, ?_⟩
      · intro i
        rw [deleted, bitmapTest_set]
        by_cases here : i = id
        · simp [here, used]
        · simp [here]
      · intro i
        rw [tags]
        by_cases here : i = id
        · simp [here, fresh, used]
        · simp [here]
      · intro s
        have others : (∃ i ∈ ids, bitmapTest mgr.inUse i = true ∧
            (Function.update mgr.poolTags id .zero i).str = s) ↔
            ∃ i ∈ ids, bitmapTest mgr.inUse i = true ∧ (mgr.poolTags i).str = s := by
          apply exists_congr
          intro i
          apply and_congr_right
          intro member
          have other : i ≠ id := fun same => fresh (same ▸ member)
          rw [Function.update_of_ne other]
        rw [tagsMap]
        simp only [others]
        by_cases own : (mgr.poolTags id).str = s
        · have erased : (mgr.tagsMap.erase (mgr.poolTags id).str) s = none := by
            rw [← own, TagsMap.erase, Function.update_self]
          have here : ∃ i ∈ id :: ids, bitmapTest mgr.inUse i = true ∧
              (mgr.poolTags i).str = s := ⟨id, List.mem_cons_self, used, own⟩
          simp only [if_pos here]
          split
          · rfl
          · exact erased
        · rw [TagsMap.erase, Function.update_of_ne (Ne.symm own)]
          simp [used, own]
    · rw [markDeleted, if_neg used] at *
      refine ⟨inUse, ?_, ?_, ?_⟩
      · intro i
        rw [deleted]
        by_cases here : i = id
        · simp [here, used]
        · simp [here]
      · intro i
        rw [tags]
        by_cases here : i = id
        · simp [here, used]
        · simp [here]
      · intro s
        rw [tagsMap]
        simp [used]

/-- What taking the marks back does: the pools in use of the list have no mark. -/
theorem unmarkDeleted_foldl_eq (ids : List Nat) (mgr : NvmKvPoolMgr) :
    let unmarked := ids.foldl unmarkDeleted mgr
    unmarked.poolTags = mgr.poolTags ∧ unmarked.tagsMap = mgr.tagsMap ∧
      ∀ i, bitmapTest unmarked.deleted i =
        (bitmapTest mgr.deleted i && !(decide (i ∈ ids) && bitmapTest mgr.inUse i)) := by
  induction ids generalizing mgr with
  | nil => simp
  | cons id ids inductionHypothesis =>
    obtain ⟨tags, tagsMap, deleted⟩ := inductionHypothesis (mgr.unmarkDeleted id)
    rw [unmarkDeleted_inUse] at deleted
    simp only [List.foldl_cons]
    by_cases used : bitmapTest mgr.inUse id = true
    · rw [unmarkDeleted, if_pos used] at *
      refine ⟨tags, tagsMap, ?_⟩
      intro i
      rw [deleted, bitmapTest_clear]
      by_cases here : i = id
      · simp [here, used]
      · simp [here]
    · rw [unmarkDeleted, if_neg used] at *
      refine ⟨tags, tagsMap, ?_⟩
      intro i
      rw [deleted]
      by_cases here : i = id
      · simp [here, used]
      · simp [here]

/-- No id is deleted twice by one call. -/
theorem idsToDelete_nodup (store : NvmKvStore) (poolId : UInt32) :
    (idsToDelete store poolId).Nodup := by
  rw [idsToDelete]
  split
  · exact List.nodup_range'
  · exact List.nodup_singleton _

end NvmKvPoolMgr

/-- What a failed deletion should leave alone. -/
def DeletionUndone (before after : NvmKvPoolMgr) : Prop :=
  (∀ i, bitmapTest after.deleted i = bitmapTest before.deleted i) ∧
    after.poolTags = before.poolTags ∧ after.tagsMap = before.tagsMap

/-- A deletion whose write fails leaves everything as it was exactly when the pools in use
that it walks over had no mark, a blank tag and no name in the map: the marks of all of
them are taken back and their tags are not restored. -/
theorem delete_failed_undone_iff (poolId : UInt32) (media : PoolMedia)
    (failed : (mgr.deletePool store poolId false media).1 = .error .io) :
    DeletionUndone mgr (mgr.deletePool store poolId false media).2.1 ↔
      ∀ i ∈ NvmKvPoolMgr.idsToDelete store poolId, bitmapTest mgr.inUse i = true →
        bitmapTest mgr.deleted i = false ∧ mgr.poolTags i = .zero ∧
          mgr.tagsMap (mgr.poolTags i).str = none := by
  have walked : (mgr.deletePool store poolId false media).2.1 =
      (NvmKvPoolMgr.idsToDelete store poolId).foldl NvmKvPoolMgr.unmarkDeleted
        ((NvmKvPoolMgr.idsToDelete store poolId).foldl NvmKvPoolMgr.markDeleted mgr) := by
    rw [NvmKvPoolMgr.deletePool] at failed ⊢
    split at failed
    · cases failed
    · rename_i valid
      rw [if_neg valid]
      split at failed
      · cases failed
      · rename_i unmarked
        rw [if_neg unmarked]
        rfl
  obtain ⟨inUse, marks, blanked, erased⟩ := NvmKvPoolMgr.markDeleted_foldl_eq
    (NvmKvPoolMgr.idsToDelete_nodup store poolId) mgr
  obtain ⟨tags, tagsMap, deleted⟩ := NvmKvPoolMgr.unmarkDeleted_foldl_eq
    (NvmKvPoolMgr.idsToDelete store poolId)
    ((NvmKvPoolMgr.idsToDelete store poolId).foldl NvmKvPoolMgr.markDeleted mgr)
  rw [walked, DeletionUndone, tags, tagsMap]
  simp only [deleted, inUse, marks]
  constructor
  · rintro ⟨sameMarks, sameTags, sameMap⟩ i member used
    refine ⟨?_, ?_, ?_⟩
    · simpa [member, used] using sameMarks i
    · have blank := blanked i
      rw [if_pos ⟨member, used⟩, sameTags] at blank
      exact blank
    · have forgotten := erased (mgr.poolTags i).str
      rw [if_pos ⟨i, member, used, rfl⟩, sameMap] at forgotten
      exact forgotten
  · intro untouched
    refine ⟨?_, funext ?_, funext ?_⟩
    · intro i
      by_cases touched : i ∈ NvmKvPoolMgr.idsToDelete store poolId ∧ bitmapTest mgr.inUse i = true
      · simp [touched.1, touched.2, (untouched i touched.1 touched.2).1]
      · have clear : (decide (i ∈ NvmKvPoolMgr.idsToDelete store poolId) &&
            bitmapTest mgr.inUse i) = false := by
          simpa using touched
        simp only [clear, Bool.or_false, Bool.not_false, Bool.and_true]
    · intro i
      rw [blanked]
      split
      · rename_i touched
        exact (untouched i touched.1 touched.2).2.1.symm
      · rfl
    · intro s
      rw [erased]
      split
      · rename_i touched
        obtain ⟨i, member, used, named⟩ := touched
        rw [← named, (untouched i member used).2.2]
      · rfl

/-- A store with one pool of a user, which has the tag `a`. -/
def onePool : PoolState where
  mgr := ((newPools .zero).mgr.createPool NvmKvStore.terabyteStore (some (letterTag 97)) true
    (newPools .zero).media).2.1
  media := ((newPools .zero).mgr.createPool NvmKvStore.terabyteStore (some (letterTag 97)) true
    (newPools .zero).media).2.2
  pending := fun _ => false

/-- A store with a pool that has no tag, and beside it one with the tag `a`. -/
def untaggedPool : PoolState where
  mgr := (((newPools .zero).mgr.createPool NvmKvStore.terabyteStore none true
    (newPools .zero).media).2.1.createPool NvmKvStore.terabyteStore (some (letterTag 97)) true
      (newPools .zero).media).2.1
  media := (newPools .zero).media
  pending := fun _ => false

/-- The deletion of the pool without a tag fails after the pool was marked: the mark is taken
back, and the map and the tags, that of the other pool included, are those from before. -/
theorem delete_failed_undone_untagged :
    bitmapTest untaggedPool.mgr.inUse 1 = true ∧
      bitmapTest (untaggedPool.mgr.markDeleted 1).deleted 1 = true ∧
      untaggedPool.mgr.poolTags 2 = letterTag 97 ∧
      (untaggedPool.mgr.deletePool NvmKvStore.terabyteStore 1 false untaggedPool.media).1 =
        .error .io ∧
      DeletionUndone untaggedPool.mgr (untaggedPool.mgr.deletePool
        NvmKvStore.terabyteStore 1 false untaggedPool.media).2.1 := by
  refine ⟨by decide, by decide, by decide, rfl, ?_⟩
  refine (delete_failed_undone_iff 1 untaggedPool.media rfl).mpr ?_
  intro i member _
  obtain rfl : i = 1 := by
    have single : NvmKvPoolMgr.idsToDelete NvmKvStore.terabyteStore 1 = [1] := rfl
    rw [single] at member
    exact List.mem_singleton.mp member
  exact ⟨by decide, by decide, by decide⟩

/-- The deletion of that pool fails: its tag is blank all the same. -/
theorem failed_deletion_blanks_tag :
    ¬ ∀ (store : NvmKvStore) (mgr : NvmKvPoolMgr) (poolId : UInt32) (media : PoolMedia),
      (mgr.deletePool store poolId false media).1 = .error .io →
        DeletionUndone mgr (mgr.deletePool store poolId false media).2.1 := by
  intro promised
  obtain ⟨_, tags, _⟩ := promised NvmKvStore.terabyteStore onePool.mgr 1 onePool.media rfl
  have blank := congrFun tags 1
  exact absurd blank (by decide)

end Nvmkv
