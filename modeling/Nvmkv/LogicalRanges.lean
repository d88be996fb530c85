import Mathlib.Data.List.Basic
import Nvmkv.Media

/-!
# Mapped ranges of the device

The logical range iterator of the device (`nvm_logical_range_iterator`) goes over
the maximal runs of mapped sectors in a range, in the order of their addresses,
and returns those whose first address passes a filter on its low bits, at most
a given number at a time.

A run is named by its first sector, so the runs are the addresses where a run
starts with the length found from there. Two facts are used throughout: runs that
share a sector are the same run, and trimming whole runs leaves exactly the others.
-/

namespace Nvmkv

/-- A range covers its sectors. -/
def NvmBlockRange.Covers (range : NvmBlockRange) (lba : Nat) : Prop :=
  range.startLba ≤ lba ∧ lba < range.startLba + range.length

namespace Media

/-- The mapped sectors in a row from a sector on, of `limit` sectors. -/
def runLength (media : Media) (lba : Nat) : (limit : Nat) → Nat
  | 0 => 0
  | limit + 1 => if (media lba).isSome then runLength media (lba + 1) limit + 1 else 0

/-- A mapped sector at the front of a range or behind a sector that is not mapped. -/
def startsRun (media : Media) (front lba : Nat) : Bool :=
  (media lba).isSome && (lba = front || (media (lba - 1)).isNone)

/-- The run that starts at a sector of a range. -/
def runAt (media : Media) (search : NvmBlockRange) (lba : Nat) : NvmBlockRange :=
  ⟨lba, media.runLength lba (search.startLba + search.length - lba)⟩

/-- The maximal runs of mapped sectors in a range. -/
def logicalRanges (media : Media) (search : NvmBlockRange) : List NvmBlockRange :=
  ((List.range' search.startLba search.length).filter
    (media.startsRun search.startLba)).map (media.runAt search)

variable {media : Media} {search : NvmBlockRange}

/-- The length of a run is the one number of sectors that are mapped and followed
by the limit or by a sector that is not. -/
theorem runLength_eq_iff {lba limit length : Nat} :
    media.runLength lba limit = length ↔
      length ≤ limit ∧ (∀ l, lba ≤ l → l < lba + length → (media l).isSome = true) ∧
        (length = limit ∨ media (lba + length) = none) := by
  induction limit generalizing lba length with
  | zero =>
      rw [runLength]
      constructor
      · rintro rfl
        exact ⟨Nat.le_refl 0, fun l above below => absurd below (by omega), Or.inl rfl⟩
      · rintro ⟨bounded, _, _⟩
        omega
  | succ limit inductionHypothesis =>
      rw [runLength]
      by_cases first : (media lba).isSome = true
      · rw [if_pos first]
        constructor
        · rintro rfl
          obtain ⟨bounded, mapped, stops⟩ := (@inductionHypothesis (lba + 1) _).mp rfl
          refine ⟨Nat.succ_le_succ bounded, ?_, ?_⟩
          · intro l above below
            rcases Nat.eq_or_lt_of_le above with same | after
            · rwa [← same]
            · exact mapped l after (by omega)
          · rcases stops with full | unmapped
            · exact Or.inl (by omega)
            · refine Or.inr ?_
              rwa [Nat.add_right_comm lba 1, Nat.add_assoc lba] at unmapped
        · rintro ⟨bounded, mapped, stops⟩
          cases length with
          | zero =>
              rcases stops with full | unmapped
              · omega
              · rw [Nat.add_zero] at unmapped
                rw [unmapped] at first
                exact Bool.noConfusion first
          | succ length =>
              have rest : media.runLength (lba + 1) limit = length := by
                rw [inductionHypothesis]
                refine ⟨Nat.le_of_succ_le_succ bounded,
                  fun l above below => mapped l (by omega) (by omega), ?_⟩
                rcases stops with full | unmapped
                · exact Or.inl (by omega)
                · refine Or.inr ?_
                  rwa [Nat.add_right_comm lba 1, Nat.add_assoc lba]
              rw [rest]
      · rw [if_neg first]
        constructor
        · rintro rfl
          refine ⟨Nat.zero_le _, fun l above below => absurd below (by omega), Or.inr ?_⟩
          rwa [Nat.add_zero, ← Option.not_isSome_iff_eq_none]
        · rintro ⟨_, mapped, _⟩
          by_contra nonzero
          exact first (mapped lba (Nat.le_refl _) (by omega))

/-- A range of the list lies in the range searched, starts a run there and has the
run's length. -/
theorem mem_logicalRanges {range : NvmBlockRange} :
    range ∈ media.logicalRanges search ↔
      (search.startLba ≤ range.startLba ∧ range.startLba < search.startLba + search.length) ∧
        media.startsRun search.startLba range.startLba = true ∧
        range = media.runAt search range.startLba := by
  rw [logicalRanges, List.mem_map]
  constructor
  · rintro ⟨lba, member, rfl⟩
    rw [List.mem_filter, List.mem_range'_1] at member
    exact ⟨member.1, member.2, rfl⟩
  · rintro ⟨inside, starts, same⟩
    refine ⟨range.startLba, ?_, same.symm⟩
    rw [List.mem_filter, List.mem_range'_1]
    exact ⟨inside, starts⟩

/-- What a range of the list is: its sectors are mapped and lie in the range
searched, and it is not longer because the search or the mapped sectors end. -/
structure IsRun (media : Media) (search range : NvmBlockRange) : Prop where
  above : search.startLba ≤ range.startLba
  positive : 0 < range.length
  below : range.startLba + range.length ≤ search.startLba + search.length
  mapped : ∀ l, range.Covers l → (media l).isSome = true
  front : range.startLba = search.startLba ∨ media (range.startLba - 1) = none
  stops : range.startLba + range.length = search.startLba + search.length ∨
    media (range.startLba + range.length) = none

/-- A range that the device returns is a run of mapped sectors. -/
theorem isRun_of_mem {range : NvmBlockRange} (member : range ∈ media.logicalRanges search) :
    media.IsRun search range := by
  obtain ⟨⟨above, inside⟩, starts, same⟩ := mem_logicalRanges.mp member
  have length : media.runLength range.startLba
      (search.startLba + search.length - range.startLba) = range.length :=
    (congrArg NvmBlockRange.length same).symm
  obtain ⟨bounded, mapped, stops⟩ := runLength_eq_iff.mp length
  rw [startsRun, Bool.and_eq_true, Bool.or_eq_true, decide_eq_true_iff,
    Option.isNone_iff_eq_none] at starts
  have positive : 0 < range.length := by
    apply Nat.pos_of_ne_zero
    intro empty
    rcases stops with full | unmapped
    · omega
    · rw [empty, Nat.add_zero] at unmapped
      rw [unmapped] at starts
      exact Bool.noConfusion starts.1
  refine ⟨above, positive, by omega, fun l covered => mapped l covered.1 covered.2, starts.2, ?_⟩
  rcases stops with full | unmapped
  · exact Or.inl (by omega)
  · exact Or.inr unmapped

/-- What is a run is in the list. -/
theorem IsRun.mem {range : NvmBlockRange} (run : media.IsRun search range) :
    range ∈ media.logicalRanges search := by
  have above := run.above
  have positive := run.positive
  have below := run.below
  have first := run.mapped range.startLba ⟨Nat.le_refl _, by omega⟩
  have length : media.runLength range.startLba
      (search.startLba + search.length - range.startLba) = range.length := by
    refine runLength_eq_iff.mpr ⟨by omega, fun l lower upper => run.mapped l ⟨lower, upper⟩, ?_⟩
    rcases run.stops with full | unmapped
    · exact Or.inl (by omega)
    · exact Or.inr unmapped
  refine mem_logicalRanges.mpr ⟨⟨above, by omega⟩, ?_, by rw [runAt, length]⟩
  rw [startsRun, first, Bool.true_and, Bool.or_eq_true, decide_eq_true_iff,
    Option.isNone_iff_eq_none]
  exact run.front

/-- A run that lies in the end of a range is one of that end. -/
theorem IsRun.narrow {range : NvmBlockRange} {front limit : Nat}
    (run : media.IsRun ⟨0, limit⟩ range) (inside : front ≤ range.startLba) :
    media.IsRun ⟨front, limit - front⟩ range := by
  have below := run.below
  have positive := run.positive
  dsimp only at below
  refine ⟨inside, positive, by dsimp only; omega, run.mapped, ?_, ?_⟩
  · rcases run.front with zero | unmapped
    · dsimp only at zero ⊢
      exact Or.inl (by omega)
    · exact Or.inr unmapped
  · rcases run.stops with full | unmapped
    · dsimp only at full ⊢
      exact Or.inl (by omega)
    · exact Or.inr unmapped

/-- A run that starts before another one also ends before it, with a gap. -/
theorem IsRun.apart {first second : NvmBlockRange} (run : media.IsRun search first)
    (other : media.IsRun search second) (before : first.startLba < second.startLba) :
    first.startLba + first.length < second.startLba := by
  by_contra touches
  have covered : first.Covers (second.startLba - 1) := ⟨by omega, by omega⟩
  have mapped := run.mapped _ covered
  rcases other.front with front | unmapped
  · have above := run.above
    omega
  · rw [unmapped] at mapped
    exact Bool.noConfusion mapped

/-- Ranges of the list that share a sector are the same. -/
theorem logicalRanges_unique {first second : NvmBlockRange} {lba : Nat}
    (member : first ∈ media.logicalRanges search) (other : second ∈ media.logicalRanges search)
    (covers : first.Covers lba) (shared : second.Covers lba) : first = second := by
  have run := isRun_of_mem member
  have rival := isRun_of_mem other
  have same : first.startLba = second.startLba := by
    rcases Nat.lt_trichotomy first.startLba second.startLba with before | same | behind
    · have apart := run.apart rival before
      have ends := covers.2
      have starts := shared.1
      omega
    · exact same
    · have apart := rival.apart run behind
      have ends := shared.2
      have starts := covers.1
      omega
  rw [(mem_logicalRanges.mp member).2.2, (mem_logicalRanges.mp other).2.2, same]

/-- Going back from a mapped sector, one comes to where its run starts. -/
theorem exists_startsRun {lba : Nat} (above : search.startLba ≤ lba)
    (mapped : (media lba).isSome = true) :
    ∃ front, search.startLba ≤ front ∧ front ≤ lba ∧
      media.startsRun search.startLba front = true ∧
      ∀ l, front ≤ l → l ≤ lba → (media l).isSome = true := by
  induction lba, above using Nat.le_induction with
  | base =>
    refine ⟨search.startLba, Nat.le_refl _, Nat.le_refl _, ?_, ?_⟩
    · simp [startsRun, mapped]
    · intro l lower upper
      rwa [Nat.le_antisymm upper lower]
  | succ lba above inductionHypothesis =>
    cases before : media lba with
    | none =>
      refine ⟨lba + 1, Nat.le_succ_of_le above, Nat.le_refl _, ?_, ?_⟩
      · simp [startsRun, mapped, before]
      · intro l lower upper
        rwa [Nat.le_antisymm upper lower]
    | some sector =>
      obtain ⟨front, lower, upper, starts, covered⟩ := inductionHypothesis (by rw [before]; rfl)
      refine ⟨front, lower, Nat.le_succ_of_le upper, starts, ?_⟩
      intro l least most
      rcases Nat.le_succ_iff.mp most with inside | last
      · exact covered l least inside
      · rwa [last]

/-- Every mapped sector of the range searched lies in a range of the list. -/
theorem logicalRanges_cover {lba : Nat} (inside : search.Covers lba)
    (mapped : (media lba).isSome = true) :
    ∃ range ∈ media.logicalRanges search, range.Covers lba := by
  obtain ⟨front, lower, upper, starts, covered⟩ := exists_startsRun inside.1 mapped
  have below := inside.2
  refine ⟨media.runAt search front, mem_logicalRanges.mpr ⟨⟨lower, by
    dsimp only [runAt]; omega⟩, starts, rfl⟩, upper, ?_⟩
  obtain ⟨_, _, stops⟩ := runLength_eq_iff.mp
    (rfl : media.runLength front (search.startLba + search.length - front) = _)
  dsimp only [runAt]
  by_contra short
  rcases stops with full | unmapped
  · omega
  · have last := covered _ (Nat.le_add_right _ _) (Nat.le_of_not_lt short)
    rw [unmapped] at last
    exact Bool.noConfusion last

/-- The ranges are in the order of their addresses, with gaps. -/
theorem logicalRanges_pairwise :
    (media.logicalRanges search).Pairwise fun first second =>
      first.startLba + first.length < second.startLba := by
  have ordered : (media.logicalRanges search).Pairwise fun first second =>
      first.startLba < second.startLba := by
    rw [logicalRanges, List.pairwise_map]
    exact List.Pairwise.filter _ List.pairwise_lt_range'
  exact ordered.imp_of_mem fun member other before =>
    (isRun_of_mem member).apart (isRun_of_mem other) before

/-- The ranges that another map has, when a run starts exactly where one starts here
that is to be kept, and is as long. -/
theorem logicalRanges_filter_of {other : Media} {keep : NvmBlockRange → Bool}
    (starts : ∀ lba, search.startLba ≤ lba → lba < search.startLba + search.length →
      (other.startsRun search.startLba lba = true ↔
        media.startsRun search.startLba lba = true ∧ keep (media.runAt search lba) = true))
    (same : ∀ range ∈ media.logicalRanges search, keep range = true →
      other.runAt search range.startLba = range) :
    other.logicalRanges search = (media.logicalRanges search).filter keep := by
  rw [logicalRanges, logicalRanges, List.filter_map, List.filter_filter]
  have selected : (List.range' search.startLba search.length).filter
      (other.startsRun search.startLba) =
      (List.range' search.startLba search.length).filter fun lba =>
        (keep ∘ media.runAt search) lba && media.startsRun search.startLba lba := by
    apply List.filter_congr
    intro lba member
    rw [List.mem_range'_1] at member
    rw [Bool.eq_iff_iff, starts lba member.1 member.2, Bool.and_eq_true]
    exact And.comm
  rw [selected]
  apply List.map_congr_left
  intro lba member
  rw [List.mem_filter, List.mem_range'_1, Bool.and_eq_true] at member
  have listed : media.runAt search lba ∈ media.logicalRanges search :=
    mem_logicalRanges.mpr ⟨member.1, member.2.2, rfl⟩
  exact same (media.runAt search lba) listed member.2.1

/-- Another map has nothing in the ranges that are not kept, and is the same elsewhere. -/
structure LosesRanges (media other : Media) (search : NvmBlockRange) (keep : NvmBlockRange → Bool) :
    Prop where
  gone : ∀ range ∈ media.logicalRanges search, keep range = false →
    ∀ l, range.Covers l → other l = none
  kept : ∀ l, search.startLba ≤ l → l < search.startLba + search.length →
    (∀ range ∈ media.logicalRanges search, keep range = false → ¬range.Covers l) →
    other l = media l

namespace LosesRanges

variable {other : Media} {keep : NvmBlockRange → Bool} {range : NvmBlockRange} {l : Nat}

/-- The sectors of a range that is kept are as before: it shares none with another range. -/
theorem inside (loses : LosesRanges media other search keep)
    (member : range ∈ media.logicalRanges search) (keeps : keep range = true)
    (covered : range.Covers l) : other l = media l := by
  have run := isRun_of_mem member
  have below := run.below
  refine loses.kept l (run.above.trans covered.1) (by have ends := covered.2; omega) ?_
  intro rival listed leaves shared
  rw [logicalRanges_unique member listed covered shared, leaves] at keeps
  exact Bool.noConfusion keeps

/-- A sector that is not mapped stays so. -/
theorem unmapped (loses : LosesRanges media other search keep) (above : search.startLba ≤ l)
    (below : l < search.startLba + search.length) (absent : media l = none) : other l = none := by
  by_cases covered : ∃ range ∈ media.logicalRanges search, keep range = false ∧ range.Covers l
  · obtain ⟨range, member, leaves, covers⟩ := covered
    exact loses.gone range member leaves l covers
  · rw [loses.kept l above below fun range member leaves covers =>
      covered ⟨range, member, leaves, covers⟩, absent]

/-- The range of a sector that is mapped still is one that is kept. -/
theorem stays (loses : LosesRanges media other search keep) (present : (other l).isSome = true)
    (member : range ∈ media.logicalRanges search) (covers : range.Covers l) :
    keep range = true := by
  cases keeps : keep range with
  | true => rfl
  | false =>
    rw [loses.gone range member keeps l covers] at present
    exact Bool.noConfusion present

/-- What is mapped still is as before. -/
theorem mapped (loses : LosesRanges media other search keep) (above : search.startLba ≤ l)
    (below : l < search.startLba + search.length) (present : (other l).isSome = true) :
    other l = media l := by
  refine loses.kept l above below fun range member leaves covers => ?_
  rw [loses.stays present member covers] at leaves
  exact Bool.noConfusion leaves

/-- Where a run starts afterwards one started before: a range that was trimmed up to there would
reach on to the mapped sector. -/
theorem started (loses : LosesRanges media other search keep) (above : search.startLba ≤ l)
    (below : l < search.startLba + search.length)
    (starts : other.startsRun search.startLba l = true) :
    media.startsRun search.startLba l = true := by
  rw [startsRun, Bool.and_eq_true, Bool.or_eq_true, decide_eq_true_iff,
    Option.isNone_iff_eq_none] at starts ⊢
  have same := loses.mapped above below starts.1
  refine ⟨same ▸ starts.1, ?_⟩
  rcases starts.2 with front | absent
  · exact Or.inl front
  · by_cases front : l = search.startLba
    · exact Or.inl front
    · refine Or.inr ?_
      rw [← loses.kept (l - 1) (by omega) (by omega), absent]
      intro range member leaves covers
      have ends : range.startLba + range.length = l := by
        by_contra further
        have onward : range.Covers l := by
          obtain ⟨first, last⟩ := covers
          exact ⟨by omega, by omega⟩
        rw [loses.stays starts.1 member onward] at leaves
        exact Bool.noConfusion leaves
      rcases (isRun_of_mem member).stops with full | stopped
      · omega
      · rw [ends, ← same] at stopped
        rw [stopped] at starts
        exact Bool.noConfusion starts.1

/-- A run starts afterwards exactly where one that is kept started before. -/
theorem startsRun_iff (loses : LosesRanges media other search keep) (above : search.startLba ≤ l)
    (below : l < search.startLba + search.length) :
    other.startsRun search.startLba l = true ↔
      media.startsRun search.startLba l = true ∧ keep (media.runAt search l) = true := by
  have covers : media.startsRun search.startLba l = true →
      media.runAt search l ∈ media.logicalRanges search ∧ (media.runAt search l).Covers l := by
    intro begins
    have listed : media.runAt search l ∈ media.logicalRanges search :=
      mem_logicalRanges.mpr ⟨⟨above, below⟩, begins, rfl⟩
    exact ⟨listed, Nat.le_refl _, Nat.lt_add_of_pos_right (isRun_of_mem listed).positive⟩
  constructor
  · intro starts
    have begins := loses.started above below starts
    obtain ⟨listed, covered⟩ := covers begins
    rw [startsRun, Bool.and_eq_true] at starts
    exact ⟨begins, loses.stays starts.1 listed covered⟩
  · rintro ⟨begins, keeps⟩
    obtain ⟨listed, covered⟩ := covers begins
    rw [startsRun, Bool.and_eq_true, Bool.or_eq_true, decide_eq_true_iff,
      Option.isNone_iff_eq_none] at begins ⊢
    rw [loses.inside listed keeps covered]
    refine ⟨begins.1, ?_⟩
    rcases begins.2 with front | absent
    · exact Or.inl front
    · by_cases front : l = search.startLba
      · exact Or.inl front
      · exact Or.inr (loses.unmapped (by omega) (by omega) absent)

/-- A run that is kept is as long as before: its sectors are the same, and so is the sector behind
it. -/
theorem runAt_eq (loses : LosesRanges media other search keep)
    (member : range ∈ media.logicalRanges search) (keeps : keep range = true) :
    other.runAt search range.startLba = range := by
  have run := isRun_of_mem member
  have below := run.below
  have length : other.runLength range.startLba
      (search.startLba + search.length - range.startLba) = range.length := by
    rw [runLength_eq_iff]
    refine ⟨by omega, ?_, ?_⟩
    · intro l above short
      rw [loses.inside member keeps ⟨above, short⟩]
      exact run.mapped l ⟨above, short⟩
    · rcases run.stops with full | absent
      · exact Or.inl (by omega)
      · by_cases further : range.startLba + range.length < search.startLba + search.length
        · exact Or.inr (loses.unmapped (by have above := run.above; omega) further absent)
        · exact Or.inl (by omega)
  rw [runAt, length]

end LosesRanges

/-- Trimming some of the ranges leaves exactly the others. -/
theorem logicalRanges_trimmed {other : Media} {keep : NvmBlockRange → Bool}
    (loses : LosesRanges media other search keep) :
    other.logicalRanges search = (media.logicalRanges search).filter keep :=
  logicalRanges_filter_of (fun _ above below => loses.startsRun_iff above below)
    fun _ member keeps => loses.runAt_eq member keeps

/-- The ranges depend on the sectors searched only. -/
theorem logicalRanges_congr {other : Media}
    (agree : ∀ l, search.startLba ≤ l → l < search.startLba + search.length → other l = media l) :
    other.logicalRanges search = media.logicalRanges search := by
  have trimmed := @logicalRanges_trimmed media search other (fun _ => true)
    ⟨fun _ _ impossible => Bool.noConfusion impossible, fun l above below _ => agree l above below⟩
  rwa [List.filter_true] at trimmed

/-- Behind the end of a run, or of any sector that is not mapped, the ranges are
those that start there or later. -/
theorem logicalRanges_rest {lba : Nat} (above : search.startLba ≤ lba)
    (below : lba ≤ search.startLba + search.length)
    (gap : lba = search.startLba + search.length ∨ media lba = none) :
    media.logicalRanges ⟨lba, search.startLba + search.length - lba⟩ =
      (media.logicalRanges search).filter fun range => lba ≤ range.startLba := by
  have split : List.range' search.startLba search.length =
      List.range' search.startLba (lba - search.startLba) ++
        List.range' lba (search.startLba + search.length - lba) := by
    have joined := @List.range'_append_1 search.startLba (lba - search.startLba)
      (search.startLba + search.length - lba)
    have start : search.startLba + (lba - search.startLba) = lba := by omega
    have length : search.startLba + search.length - lba + (lba - search.startLba) =
        search.length := by omega
    have other : lba - search.startLba + (search.startLba + search.length - lba) =
        search.length := by omega
    rw [start] at joined
    rw [joined]
    congr 1
    omega
  have early : ((List.range' search.startLba (lba - search.startLba)).filter
      (media.startsRun search.startLba)).filter
        ((fun range : NvmBlockRange => decide (lba ≤ range.startLba)) ∘ media.runAt search) =
      [] := by
    rw [List.filter_eq_nil_iff]
    intro l member late
    rw [List.mem_filter, List.mem_range'_1] at member
    have later : lba ≤ l := of_decide_eq_true late
    omega
  rw [logicalRanges, logicalRanges, List.filter_map, split, List.filter_append, List.filter_append,
    early, List.nil_append, List.filter_filter]
  have same : (List.range' lba (search.startLba + search.length - lba)).filter
        (media.startsRun lba) =
      (List.range' lba (search.startLba + search.length - lba)).filter fun l =>
        ((fun range : NvmBlockRange => decide (lba ≤ range.startLba)) ∘ media.runAt search) l &&
          media.startsRun search.startLba l := by
    apply List.filter_congr
    intro l member
    rw [List.mem_range'_1] at member
    have late : lba ≤ (media.runAt search l).startLba := member.1
    simp only [Function.comp_apply, late, decide_true, Bool.true_and]
    rw [startsRun, startsRun]
    by_cases here : l = lba
    · have absent : media lba = none := gap.resolve_left (by omega)
      rw [here, absent]
      rfl
    · have behind : l ≠ search.startLba := by omega
      simp [here, behind]
  rw [same]
  apply List.map_congr_left
  intro l member
  rw [List.mem_filter, List.mem_range'_1] at member
  rw [runAt, runAt]
  congr 2
  dsimp only
  omega

/-- One mapped sector is one range. -/
theorem logicalRanges_single {lba : Nat} {sector : Region} (inside : search.Covers lba) :
    logicalRanges (fun l => if l = lba then some sector else none) search = [⟨lba, 1⟩] := by
  obtain ⟨above, below⟩ := inside
  have member : ⟨lba, 1⟩ ∈
      logicalRanges (fun l => if l = lba then some sector else none) search := by
    rw [mem_logicalRanges]
    refine ⟨⟨above, below⟩, ?_, ?_⟩
    · rw [startsRun, Bool.and_eq_true, Bool.or_eq_true, decide_eq_true_iff,
        Option.isNone_iff_eq_none]
      refine ⟨by simp, ?_⟩
      rcases Nat.eq_zero_or_pos lba with zero | positive
      · have front : search.startLba = lba := by omega
        exact Or.inl front.symm
      · have before : lba - 1 ≠ lba := by omega
        exact Or.inr (if_neg before)
    · have length : runLength (fun l => if l = lba then some sector else none) lba
          (search.startLba + search.length - lba) = 1 := by
        rw [runLength_eq_iff]
        refine ⟨by omega, fun l first last => ?_, Or.inr (if_neg (by omega))⟩
        have here : l = lba := by omega
        simp [here]
      rw [runAt, length]
  have only : ∀ range ∈ logicalRanges (fun l => if l = lba then some sector else none) search,
      range = ⟨lba, 1⟩ := by
    intro range listed
    have covered : ∀ l, range.Covers l → l = lba := by
      intro l covers
      have mapped := (isRun_of_mem listed).mapped l covers
      split_ifs at mapped with here
      · exact here
      · exact Bool.noConfusion mapped
    have positive := (isRun_of_mem listed).positive
    have first := covered range.startLba ⟨Nat.le_refl _, by omega⟩
    have last := covered (range.startLba + range.length - 1) ⟨by omega, by omega⟩
    exact logicalRanges_unique listed member ⟨Nat.le_refl _, by omega⟩
      ⟨by dsimp only; omega, by dsimp only; omega⟩
  have ordered := @logicalRanges_pairwise (fun l => if l = lba then some sector else none) search
  cases ranges : logicalRanges (fun l => if l = lba then some sector else none) search with
  | nil =>
      rw [ranges] at member
      exact nomatch member
  | cons range rest =>
      rw [ranges] at only ordered
      have same := only range List.mem_cons_self
      cases rest with
      | nil => rw [same]
      | cons other rest =>
          have again := only other (List.mem_cons_of_mem _ List.mem_cons_self)
          have apart := (List.pairwise_cons.mp ordered).1 other List.mem_cons_self
          rw [same, again] at apart
          dsimp only at apart
          omega

/-- Whether the first address of a range passes the filter. -/
def passesFilter (filterMask filterPattern : Nat) (range : NvmBlockRange) : Bool :=
  range.startLba &&& filterMask = filterPattern

/-- Without a mask every range passes. -/
@[simp] theorem passesFilter_zero (range : NvmBlockRange) : passesFilter 0 0 range = true :=
  decide_eq_true (Nat.and_zero _)

/-- The filter without a mask passes every range. -/
@[simp] theorem filter_passesFilter_zero (ranges : List NvmBlockRange) :
    ranges.filter (passesFilter 0 0) = ranges :=
  List.filter_eq_self.mpr fun range _ => passesFilter_zero range

/-- One call of the iterator: the ranges found and what is left to iterate over. -/
def logicalRangeIterator (media : Media) (search : NvmBlockRange)
    (maxRanges filterMask filterPattern : Nat) : List NvmBlockRange × NvmBlockRange :=
  let found := ((media.logicalRanges search).filter
    (passesFilter filterMask filterPattern)).take maxRanges
  (found,
    match found.getLast? with
    | none => ⟨search.startLba + search.length, 0⟩
    | some last =>
        ⟨last.startLba + last.length,
          search.startLba + search.length - (last.startLba + last.length)⟩)

/-- What is left to iterate over ends where the search ends, starts behind the
ranges found, and has the further ranges, whatever happened to the sectors before
it. -/
theorem logicalRangeIterator_rest {maxRanges filterMask filterPattern : Nat}
    (positive : 0 < maxRanges) {found : List NvmBlockRange} {left : NvmBlockRange}
    (called : media.logicalRangeIterator search maxRanges filterMask filterPattern =
      (found, left)) :
    search.startLba ≤ left.startLba ∧
      left.startLba + left.length = search.startLba + search.length ∧
      (∀ range ∈ found, range.startLba + range.length ≤ left.startLba) ∧
      (found ≠ [] → left.length < search.length) ∧
      ∀ other : Media, (∀ l, left.startLba ≤ l → l < left.startLba + left.length →
          other l = media l) →
        (other.logicalRanges left).filter (passesFilter filterMask filterPattern) =
          ((media.logicalRanges search).filter
            (passesFilter filterMask filterPattern)).drop maxRanges := by
  rw [logicalRangeIterator] at called
  obtain ⟨taken, rest⟩ := Prod.mk.inj called
  rw [taken] at rest
  cases ends : found.getLast? with
  | none =>
      rw [ends] at rest
      have none : found = [] := List.getLast?_eq_none_iff.mp ends
      subst none
      rw [← rest]
      refine ⟨Nat.le_add_right _ _, rfl, fun _ absent => (nomatch absent),
        fun impossible => absurd rfl impossible, ?_⟩
      intro other _
      have empty :
          (media.logicalRanges search).filter (passesFilter filterMask filterPattern) = [] := by
        rcases List.take_eq_nil_iff.mp taken with zero | empty
        · omega
        · exact empty
      rw [empty, List.drop_nil]
      rfl
  | some last =>
      rw [ends] at rest
      obtain ⟨before, split⟩ := List.getLast?_eq_some_iff.mp ends
      have member : last ∈ media.logicalRanges search := by
        have listed : last ∈ found := split ▸ List.mem_append_right _ (List.mem_singleton_self _)
        rw [← taken] at listed
        exact List.mem_of_mem_filter (List.mem_of_mem_take listed)
      have run := isRun_of_mem member
      have above := run.above
      have below := run.below
      have length := run.positive
      rw [← rest]
      have ordered : (((media.logicalRanges search).filter
          (passesFilter filterMask filterPattern))).Pairwise fun first second =>
            first.startLba + first.length < second.startLba :=
        List.Pairwise.filter _ logicalRanges_pairwise
      rw [← List.take_append_drop maxRanges ((media.logicalRanges search).filter
        (passesFilter filterMask filterPattern)), taken, split] at ordered
      obtain ⟨front, _, behind⟩ := List.pairwise_append.mp ordered
      obtain ⟨_, _, earlier⟩ := List.pairwise_append.mp front
      refine ⟨by dsimp only; omega, by dsimp only; omega, ?_, fun _ => by dsimp only; omega, ?_⟩
      · intro range listed
        rw [split, List.mem_append, List.mem_singleton] at listed
        rcases listed with listed | same
        · have apart := earlier range listed last (List.mem_singleton_self _)
          dsimp only
          omega
        · rw [same]
      · intro other agree
        rw [logicalRanges_congr agree, logicalRanges_rest (by omega) below run.stops]
        have order : ((media.logicalRanges search).filter fun range =>
              decide (last.startLba + last.length ≤ range.startLba)).filter
              (passesFilter filterMask filterPattern) =
            ((media.logicalRanges search).filter (passesFilter filterMask filterPattern)).filter
              fun range => decide (last.startLba + last.length ≤ range.startLba) := by
          rw [List.filter_filter, List.filter_filter]
          exact List.filter_congr fun _ _ => Bool.and_comm _ _
        rw [order]
        conv_lhs => rw [← List.take_append_drop maxRanges ((media.logicalRanges search).filter
          (passesFilter filterMask filterPattern)), taken, split]
        rw [List.filter_append]
        have gone : (before ++ [last]).filter (fun range =>
            decide (last.startLba + last.length ≤ range.startLba)) = [] := by
          rw [List.filter_eq_nil_iff]
          intro range listed late
          have later : last.startLba + last.length ≤ range.startLba := of_decide_eq_true late
          rw [List.mem_append, List.mem_singleton] at listed
          rcases listed with listed | same
          · have apart := earlier range listed last (List.mem_singleton_self _)
            omega
          · rw [same] at later
            omega
        rw [gone, List.nil_append, List.filter_eq_self]
        intro range listed
        have apart := behind last (List.mem_append_right _ (List.mem_singleton_self _)) range listed
        exact decide_eq_true (Nat.le_of_lt apart)

end Media

end Nvmkv
