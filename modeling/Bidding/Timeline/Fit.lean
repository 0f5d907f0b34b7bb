import Mathlib.Data.String.Basic
import Bidding.Foundations.JsonText
import Bidding.Timeline.Order

/-!
# The room for the rows of a milestone

Sort orders compare as the anchors in hundredths and the numbers of the rows. So the timeline is ordered exactly when the
last row of every milestone comes before the first of every later one in whole numbers.
-/

namespace Bidding.Timeline

open Foundations List

/-! ## Sort orders in hundredths -/

def hundredths (definition : Milestone) (ordinal : ℕ) : ℕ := 100 * definition.sortAnchor + ordinal

def firstOrdinal (definition : Milestone) : ℕ := if definition.repeatable.isSome then 1 else 0

theorem sortAnchor_le {definition : Milestone} (h : definition ∈ milestones) : definition.sortAnchor ≤ 1000 := by
  have hcatalog : ∀ d ∈ milestones, d.sortAnchor ≤ 1000 := by decide
  exact hcatalog definition h

theorem le_sortAnchor_of_repeatable {definition : Milestone} (h : definition ∈ milestones)
    (hrepeatable : definition.repeatable.isSome = true) : 520 ≤ definition.sortAnchor ∧ definition.sortAnchor ≤ 560 := by
  have hcatalog : ∀ d ∈ milestones, d.repeatable.isSome = true → 520 ≤ d.sortAnchor ∧ d.sortAnchor ≤ 560 := by decide
  exact hcatalog definition h hrepeatable

theorem double_sortAnchor {definition : Milestone} (h : definition.sortAnchor ≤ 1000) :
    double (definition.sortAnchor : ℚ) = definition.sortAnchor :=
  double_natCast (by omega)

variable {ordinal ordinal' : ℕ}

theorem sortOrder_mono (definition : Milestone) (h : ordinal ≤ ordinal') :
    sortOrder definition ordinal ≤ sortOrder definition ordinal' := by
  have hcast : (ordinal : ℚ) ≤ ordinal' := by exact_mod_cast h
  have hfraction : double ((ordinal : ℚ) / 100) ≤ double ((ordinal' : ℚ) / 100) :=
    double_mono (by positivity) (div_le_div_of_nonneg_right hcast (by norm_num))
  have hnonneg : 0 ≤ double (definition.sortAnchor : ℚ) + double ((ordinal : ℚ) / 100) :=
    add_nonneg (double_nonneg (by positivity)) (double_nonneg (by positivity))
  unfold sortOrder
  split
  · apply double_mono hnonneg
    linarith
  · exact le_rfl

theorem abs_sortOrder_sub_le {definition : Milestone} {ordinal : ℕ} (hanchor : definition.sortAnchor ≤ 1000)
    (hsingle : definition.repeatable.isSome = false → ordinal = 0) (hordinal : ordinal ≤ 1000000) :
    |sortOrder definition ordinal - (hundredths definition ordinal : ℚ) / 100| ≤ 1 / 1000 := by
  unfold sortOrder
  rw [double_sortAnchor hanchor]
  split
  · have hanchor' : (definition.sortAnchor : ℚ) ≤ 1000 := by exact_mod_cast hanchor
    have hordinal' : (ordinal : ℚ) ≤ 1000000 := by exact_mod_cast hordinal
    have hfraction := abs_double_sub_le (x := (ordinal : ℚ) / 100) (by positivity)
    have hnonneg : (0 : ℚ) ≤ definition.sortAnchor + double ((ordinal : ℚ) / 100) :=
      add_nonneg (by positivity) (double_nonneg (by positivity))
    have hsum := abs_double_sub_le hnonneg
    unfold hundredths
    push_cast
    rw [abs_le] at hfraction hsum ⊢
    constructor <;> linarith
  · rename_i hnone
    rw [hsingle (by simpa using hnone)]
    unfold hundredths
    push_cast
    rw [abs_le]
    constructor <;> linarith

variable {definition definition' : Milestone}

theorem sortOrder_lt (hanchor : definition.sortAnchor ≤ 1000) (hanchor' : definition'.sortAnchor ≤ 1000)
    (hsingle : definition.repeatable.isSome = false → ordinal = 0)
    (hsingle' : definition'.repeatable.isSome = false → ordinal' = 0) (hordinal : ordinal ≤ 200000)
    (h : hundredths definition ordinal < hundredths definition' ordinal') :
    sortOrder definition ordinal < sortOrder definition' ordinal' := by
  -- the first row of the milestone that is written as larger
  obtain ⟨next, hnext⟩ : ∃ next, next = hundredths definition ordinal + 1 - 100 * definition'.sortAnchor := ⟨_, rfl⟩
  unfold hundredths at h hnext
  have hle : next ≤ ordinal' := by omega
  apply lt_of_lt_of_le _ (sortOrder_mono definition' hle)
  have hbefore := abs_sortOrder_sub_le hanchor hsingle (by omega)
  have hafter : |sortOrder definition' next - (hundredths definition' next : ℚ) / 100| ≤ 1 / 1000 := by
    apply abs_sortOrder_sub_le hanchor'
    · intro hnone
      have := hsingle' hnone
      omega
    · omega
  have hwritten : hundredths definition ordinal + 1 ≤ hundredths definition' next := by
    unfold hundredths
    omega
  have hwritten' : (hundredths definition ordinal : ℚ) + 1 ≤ hundredths definition' next := by exact_mod_cast hwritten
  rw [abs_le] at hbefore hafter
  linarith

theorem sortOrder_of_hundredth {definition : Milestone} {ordinal a : ℕ}
    (hrepeatable : definition.repeatable.isSome = true) (hanchor : definition.sortAnchor ≤ 1000)
    (hordinal : ordinal ≤ 40000) (hlower : 512 ≤ a) (hupper : a ≤ 1000) (h : hundredths definition ordinal = 100 * a + 1) :
    sortOrder definition ordinal = ((a * 2 ^ 43 + 87960930222 : ℕ) : ℤ) / 2 ^ (52 - (9 : ℕ) : ℤ) := by
  unfold sortOrder
  rw [double_sortAnchor hanchor, if_pos hrepeatable]
  have hsum : (definition.sortAnchor : ℚ) + ordinal / 100 = a + 1 / 100 := by
    have hcast : (100 : ℚ) * definition.sortAnchor + ordinal = 100 * a + 1 := by
      unfold hundredths at h
      exact_mod_cast h
    linarith
  have hordinal' : (ordinal : ℚ) ≤ 40000 := by exact_mod_cast hordinal
  have hlower' : (512 : ℚ) ≤ a := by exact_mod_cast hlower
  have hupper' : (a : ℚ) ≤ 1000 := by exact_mod_cast hupper
  have hfraction := abs_double_sub_le (x := (ordinal : ℚ) / 100) (by positivity)
  rw [abs_le] at hfraction
  apply double_eq_of_near
  · norm_num
    linarith
  · norm_num
    linarith
  · norm_num
    rw [abs_lt]
    constructor <;> linarith

theorem sortOrder_eq {ordinal : ℕ} (hdefinition : definition ∈ milestones)
    (hdefinition' : definition' ∈ milestones) (hsingle : definition.repeatable.isSome = false → ordinal = 0)
    (h : hundredths definition ordinal = hundredths definition' (firstOrdinal definition')) :
    sortOrder definition ordinal = sortOrder definition' (firstOrdinal definition') := by
  have hanchor := sortAnchor_le hdefinition
  have hanchor' := sortAnchor_le hdefinition'
  cases hrepeatable' : definition'.repeatable.isSome with
  | true =>
    have hfirst : firstOrdinal definition' = 1 := by simp [firstOrdinal, hrepeatable']
    have hwindow' := le_sortAnchor_of_repeatable hdefinition' hrepeatable'
    rw [hfirst] at h ⊢
    cases hrepeatable : definition.repeatable.isSome with
    | true =>
      have hwindow := le_sortAnchor_of_repeatable hdefinition hrepeatable
      have hordinal : ordinal ≤ 40000 := by
        unfold hundredths at h
        omega
      rw [sortOrder_of_hundredth hrepeatable hanchor hordinal (by omega) hanchor' h,
        sortOrder_of_hundredth hrepeatable' hanchor' (by omega) (by omega) hanchor' rfl]
    | false =>
      -- a number of hundredths that is a multiple of a hundred is not one more than another
      unfold hundredths at h
      have := hsingle hrepeatable
      omega
  | false =>
    have hfirst : firstOrdinal definition' = 0 := by simp [firstOrdinal, hrepeatable']
    rw [hfirst] at h ⊢
    unfold hundredths at h
    unfold sortOrder
    rw [double_sortAnchor hanchor, double_sortAnchor hanchor']
    cases hrepeatable : definition.repeatable.isSome with
    | true =>
      obtain ⟨whole, hwhole⟩ : ∃ whole, ordinal = 100 * whole := ⟨ordinal / 100, by omega⟩
      have hfraction : (ordinal : ℚ) / 100 = (whole : ℕ) := by
        rw [hwhole]
        push_cast
        ring
      have hsum : (definition.sortAnchor : ℚ) + (whole : ℕ) = (definition'.sortAnchor : ℕ) := by
        have : definition.sortAnchor + whole = definition'.sortAnchor := by omega
        exact_mod_cast this
      simp only [hrepeatable', if_true, Bool.false_eq_true, if_false]
      rw [hfraction, double_natCast (c := whole) (by omega), hsum, double_natCast (by omega)]
    | false =>
      have hsame : definition.sortAnchor = definition'.sortAnchor := by
        have := hsingle hrepeatable
        omega
      simp [hrepeatable', hsame]

theorem milestoneKeys_nodup : (milestones.map Milestone.milestoneKey).Nodup := by decide

theorem milestonePlace_getElem {place : ℕ} (h : place < milestones.length) :
    milestonePlace milestones[place].milestoneKey = place := by
  have hlt : place < (milestones.map Milestone.milestoneKey).length := by rwa [length_map]
  have hget := milestoneKeys_nodup.idxOf_getElem place hlt
  rwa [getElem_map] at hget

theorem of_milestonePlace_lt {r : Milestone → Milestone → Prop} (h : milestones.Pairwise r)
    {definition : Milestone} (hdefinition : definition ∈ milestones) (hdefinition' : definition' ∈ milestones)
    (hlt : milestonePlace definition.milestoneKey < milestonePlace definition'.milestoneKey) :
    r definition definition' := by
  obtain ⟨place, hplace, rfl⟩ := getElem_of_mem hdefinition
  obtain ⟨place', hplace', rfl⟩ := getElem_of_mem hdefinition'
  rw [milestonePlace_getElem hplace, milestonePlace_getElem hplace'] at hlt
  exact pairwise_iff_getElem.mp h place place' hplace hplace' hlt

section

variable (hdefinition : definition ∈ milestones)
include hdefinition

section

variable (hdefinition' : definition' ∈ milestones)
include hdefinition'

theorem milestone_eq_of_place_eq (h : milestonePlace definition.milestoneKey = milestonePlace definition'.milestoneKey) :
    definition = definition' := by
  obtain ⟨place, hplace, rfl⟩ := getElem_of_mem hdefinition
  obtain ⟨place', hplace', rfl⟩ := getElem_of_mem hdefinition'
  rw [milestonePlace_getElem hplace, milestonePlace_getElem hplace'] at h
  subst h
  rfl

theorem sections_le_of_place_le (h : milestonePlace definition.milestoneKey ≤ milestonePlace definition'.milestoneKey) :
    sections.idxOf definition.sectionKey ≤ sections.idxOf definition'.sectionKey := by
  have hchain : milestones.Pairwise fun d d' => sections.idxOf d.sectionKey ≤ sections.idxOf d'.sectionKey := by decide
  rcases Nat.lt_or_eq_of_le h with hlt | heq
  · exact of_milestonePlace_lt hchain hdefinition hdefinition' hlt
  · rw [milestone_eq_of_place_eq hdefinition hdefinition' heq]

theorem sortAnchor_add_le (h : milestonePlace definition.milestoneKey < milestonePlace definition'.milestoneKey) :
    definition.sortAnchor + 10 ≤ definition'.sortAnchor := by
  have hchain : milestones.Pairwise fun d d' => d.sortAnchor + 10 ≤ d'.sortAnchor := by decide
  exact of_milestonePlace_lt hchain hdefinition hdefinition' h

end

end

section Fit

variable (textLe : String → String → Bool) (facts : TimelineFacts) (hasData : String → String → Bool)
  (related : EntityKind → List TimelineEntity) (includeNotApplicable : Bool)

def shownCount (definition : Milestone) : ℕ :=
  match definition.repeatable with
  | some kind => (distinctEntities (related kind)).length
  | none =>
    if includeNotApplicable ||
        (ruleResult definition facts (hasData definition.milestoneKey "")).1 ≠ .notApplicable then 1
    else 0

def lastOrdinal (definition : Milestone) : ℕ :=
  if definition.repeatable.isSome then shownCount facts hasData related includeNotApplicable definition else 0

/-- The rows of every milestone fit before those of the later ones: the last of them is written as smaller than the
first of these, or as the same and the keys decide. -/
def RowsFit : Prop :=
  ∀ definition ∈ milestones, ∀ definition' ∈ milestones,
    milestonePlace definition.milestoneKey < milestonePlace definition'.milestoneKey →
    0 < shownCount facts hasData related includeNotApplicable definition →
    0 < shownCount facts hasData related includeNotApplicable definition' →
      hundredths definition (lastOrdinal facts hasData related includeNotApplicable definition) <
          hundredths definition' (firstOrdinal definition') ∨
        hundredths definition (lastOrdinal facts hasData related includeNotApplicable definition) =
            hundredths definition' (firstOrdinal definition') ∧
          textLe definition.milestoneKey definition'.milestoneKey = true

/-- A row on the list is the row of a milestone with this number. -/
structure Listed (definition : Milestone) (ordinal : ℕ) (row : TimelineRow) : Prop where
  milestone : definition ∈ milestones
  key : row.milestoneKey = definition.milestoneKey
  inSection : row.sectionKey = definition.sectionKey
  order : row.sortOrder = sortOrder definition ordinal
  shown : 0 < shownCount facts hasData related includeNotApplicable definition
  first : firstOrdinal definition ≤ ordinal
  last : ordinal ≤ lastOrdinal facts hasData related includeNotApplicable definition

variable {textLe facts hasData related includeNotApplicable} {row : TimelineRow}

theorem Listed.single {definition : Milestone} {ordinal : ℕ}
    (h : Listed facts hasData related includeNotApplicable definition ordinal row)
    (hnone : definition.repeatable.isSome = false) : ordinal = 0 := by
  have hlast := h.last
  unfold lastOrdinal at hlast
  rw [hnone] at hlast
  exact Nat.le_zero.mp hlast

theorem mem_listedRows : row ∈ listedRows textLe facts hasData related includeNotApplicable ↔
    (∃ definition ∈ milestones, row ∈ rowsOf textLe facts hasData related definition) ∧
      (includeNotApplicable || row.applicability ≠ .notApplicable) = true := by
  unfold listedRows
  rw [mem_filter, mem_mergeSort, mem_flatMap]

theorem listed_of_mem (h : row ∈ listedRows textLe facts hasData related includeNotApplicable) :
    ∃ definition ordinal, Listed facts hasData related includeNotApplicable definition ordinal row := by
  obtain ⟨⟨definition, hdefinition, hrow⟩, hshown⟩ := mem_listedRows.mp h
  unfold rowsOf at hrow
  cases hrepeatable : definition.repeatable with
  | some kind =>
    rw [hrepeatable] at hrow
    obtain ⟨entry, hentry, rfl⟩ := mem_map.mp hrow
    have hbounds := mk_mem_zipIdx_iff_le_and_getElem?_sub.mp hentry
    obtain ⟨hlt, -⟩ := List.getElem?_eq_some_iff.mp hbounds.2
    rw [length_mergeSort] at hlt
    refine ⟨definition, entry.2, hdefinition, rfl, rfl, rfl, ?_, ?_, ?_⟩
    · unfold shownCount
      rw [hrepeatable]
      dsimp only
      omega
    · simpa [firstOrdinal, hrepeatable] using hbounds.1
    · have := hbounds.1
      simp only [lastOrdinal, shownCount, hrepeatable, Option.isSome_some, if_true]
      omega
  | none =>
    rw [hrepeatable] at hrow
    rw [mem_singleton] at hrow
    subst hrow
    refine ⟨definition, 0, hdefinition, rfl, rfl, rfl, ?_, ?_, Nat.zero_le _⟩
    · unfold makeRow at hshown
      simp only [hrepeatable, Option.isNone_none, if_true] at hshown
      unfold shownCount
      rw [hrepeatable]
      dsimp only
      rw [if_pos hshown]
      exact Nat.one_pos
    · simp [firstOrdinal, hrepeatable]

theorem exists_listed {definition : Milestone} {ordinal : ℕ} (hdefinition : definition ∈ milestones)
    (hshown : 0 < shownCount facts hasData related includeNotApplicable definition) (hfirst : firstOrdinal definition ≤ ordinal)
    (hlast : ordinal ≤ lastOrdinal facts hasData related includeNotApplicable definition) :
    ∃ row ∈ listedRows textLe facts hasData related includeNotApplicable,
      Listed facts hasData related includeNotApplicable definition ordinal row := by
  cases hrepeatable : definition.repeatable with
  | some kind =>
    have hsome : definition.repeatable.isSome = true := by simp [hrepeatable]
    simp only [firstOrdinal, hsome, if_true] at hfirst
    have hcount : ordinal ≤ (distinctEntities (related kind)).length := by
      simpa [lastOrdinal, shownCount, hrepeatable] using hlast
    have hlt : ordinal - 1 < ((distinctEntities (related kind)).mergeSort (entityLe textLe)).length := by
      rw [length_mergeSort]
      omega
    refine ⟨makeRow facts hasData definition
      (((distinctEntities (related kind)).mergeSort (entityLe textLe))[ordinal - 1]).id ordinal,
      mem_listedRows.mpr ⟨⟨definition, hdefinition, ?_⟩, ?_⟩, hdefinition, rfl, rfl, rfl, hshown, ?_, hlast⟩
    · unfold rowsOf
      rw [hrepeatable]
      apply mem_map.mpr
      refine ⟨(((distinctEntities (related kind)).mergeSort (entityLe textLe))[ordinal - 1], ordinal), ?_, rfl⟩
      exact mk_mem_zipIdx_iff_le_and_getElem?_sub.mpr ⟨hfirst, getElem?_eq_getElem hlt⟩
    · have happlies (data : Bool) : (ruleResult definition facts data).1 = .applicable :=
        repeatable_applies hdefinition hsome data
      unfold makeRow
      simp [happlies]
    · simpa [firstOrdinal, hsome] using hfirst
  | none =>
    have hzero : ordinal = 0 := by
      simp only [lastOrdinal, hrepeatable, Option.isSome_none, Bool.false_eq_true, if_false] at hlast
      omega
    subst hzero
    refine ⟨makeRow facts hasData definition "" 0, mem_listedRows.mpr ⟨⟨definition, hdefinition, ?_⟩, ?_⟩,
      hdefinition, rfl, rfl, rfl, hshown, hfirst, hlast⟩
    · unfold rowsOf
      rw [hrepeatable]
      exact mem_singleton_self _
    · unfold shownCount at hshown
      rw [hrepeatable] at hshown
      dsimp only at hshown
      unfold makeRow
      simp only [hrepeatable, Option.isNone_none, if_true]
      by_contra hnot
      rw [if_neg hnot] at hshown
      exact Nat.lt_irrefl 0 hshown

/-! ## Ordered exactly when the rows fit -/

theorem rowsFit_of_ordered (hle : TotalPreorder textLe)
    (h : TimelineOrdered (buildEffectiveTimeline textLe facts hasData related includeNotApplicable)) :
    RowsFit textLe facts hasData related includeNotApplicable := by
  intro definition hdefinition definition' hdefinition' hplace hshown hshown'
  have hwindow : firstOrdinal definition ≤ lastOrdinal facts hasData related includeNotApplicable definition := by
    unfold firstOrdinal lastOrdinal
    split <;> omega
  have hwindow' : firstOrdinal definition' ≤ lastOrdinal facts hasData related includeNotApplicable definition' := by
    unfold firstOrdinal lastOrdinal
    split <;> omega
  obtain ⟨row, hrow, hlisted⟩ := @exists_listed textLe _ _ _ _ _ _ hdefinition hshown hwindow le_rfl
  obtain ⟨row', hrow', hlisted'⟩ := @exists_listed textLe _ _ _ _ _ _ hdefinition' hshown' le_rfl hwindow'
  have hplaces : (listedRows textLe facts hasData related includeNotApplicable).Pairwise fun row row' =>
      milestonePlace row.milestoneKey ≤ milestonePlace row'.milestoneKey := by
    rw [← map_withoutCodes_timeline, pairwise_map]
    exact h.milestonesInOrder
  have hsorted : (listedRows textLe facts hasData related includeNotApplicable).Pairwise fun row row' =>
      rowLe textLe row row' = true :=
    (pairwise_mergeSort (totalPreorder_rowLe hle).trans (totalPreorder_rowLe hle).total _).filter _
  have hne : row ≠ row' := by
    rintro rfl
    rw [← hlisted.key, ← hlisted'.key] at hplace
    exact Nat.lt_irrefl _ hplace
  -- the row of the later milestone does not come first
  have hbefore : rowLe textLe row row' = true := by
    rcases pair_sublist_of_mem hrow hrow' hne with hsub | hsub
    · simpa only [pairwise_pair] using hsorted.sublist hsub
    · have hback := pairwise_pair.mp (hplaces.sublist hsub)
      rw [hlisted.key, hlisted'.key] at hback
      omega
  unfold rowLe at hbefore
  rw [Bool.or_eq_true, decide_eq_true_iff, Bool.and_eq_true, decide_eq_true_iff, hlisted.order, hlisted'.order,
    hlisted.key, hlisted'.key] at hbefore
  have hlater (hlt : hundredths definition' (firstOrdinal definition') <
      hundredths definition (lastOrdinal facts hasData related includeNotApplicable definition)) :
      sortOrder definition' (firstOrdinal definition') <
        sortOrder definition (lastOrdinal facts hasData related includeNotApplicable definition) := by
    apply sortOrder_lt (sortAnchor_le hdefinition') (sortAnchor_le hdefinition) hlisted'.single hlisted.single _ hlt
    unfold firstOrdinal
    split <;> omega
  rcases lt_trichotomy (hundredths definition (lastOrdinal facts hasData related includeNotApplicable definition))
    (hundredths definition' (firstOrdinal definition')) with hlt | heq | hgt
  · exact Or.inl hlt
  · refine Or.inr ⟨heq, ?_⟩
    have hsame := sortOrder_eq hdefinition hdefinition' hlisted.single heq
    rcases hbefore with hstrict | ⟨-, htext⟩
    · exact absurd hstrict (by rw [hsame]; exact lt_irrefl _)
    · unfold textThen at htext
      exact (Bool.and_eq_true_iff.mp htext).1
  · have hstrict := hlater hgt
    rcases hbefore with hback | ⟨hsame, -⟩
    · exact absurd hback (not_lt_of_gt hstrict)
    · exact absurd hsame (ne_of_gt hstrict)

theorem place_le_of_rowLe (hkeys : ∀ definition ∈ milestones, ∀ definition' ∈ milestones,
      textLe definition.milestoneKey definition'.milestoneKey = true →
        textLe definition'.milestoneKey definition.milestoneKey = true → definition.milestoneKey = definition'.milestoneKey)
    (hfit : RowsFit textLe facts hasData related includeNotApplicable) {definition : Milestone}
    {ordinal : ℕ} {row' : TimelineRow}
    (hlisted : Listed facts hasData related includeNotApplicable definition ordinal row)
    (hlisted' : Listed facts hasData related includeNotApplicable definition' ordinal' row')
    (hle : rowLe textLe row row' = true) :
    milestonePlace definition.milestoneKey ≤ milestonePlace definition'.milestoneKey := by
  by_contra hnot
  have hplace := Nat.lt_of_not_le hnot
  have hfits := hfit definition' hlisted'.milestone definition hlisted.milestone hplace hlisted'.shown hlisted.shown
  have hsingle' (hnone : definition'.repeatable.isSome = false) :
      lastOrdinal facts hasData related includeNotApplicable definition' = 0 := by
    unfold lastOrdinal
    rw [hnone]
    exact if_neg Bool.false_ne_true
  have hsingle (hnone : definition.repeatable.isSome = false) : firstOrdinal definition = 0 := by
    unfold firstOrdinal
    rw [hnone]
    exact if_neg Bool.false_ne_true
  have hlast := sortOrder_mono definition' hlisted'.last
  have hfirst := sortOrder_mono definition hlisted.first
  unfold rowLe at hle
  rw [Bool.or_eq_true, decide_eq_true_iff, Bool.and_eq_true, decide_eq_true_iff, hlisted.order, hlisted'.order,
    hlisted.key, hlisted'.key] at hle
  rcases hfits with hlt | ⟨heq, htext⟩
  · have hordinal : lastOrdinal facts hasData related includeNotApplicable definition' ≤ 200000 := by
      have hanchor := sortAnchor_le hlisted.milestone
      unfold hundredths firstOrdinal at hlt
      split at hlt <;> omega
    have hstrict := sortOrder_lt (sortAnchor_le hlisted'.milestone) (sortAnchor_le hlisted.milestone) hsingle' hsingle
      hordinal hlt
    have hafter := lt_of_le_of_lt hlast (lt_of_lt_of_le hstrict hfirst)
    rcases hle with hback | ⟨hsame, -⟩
    · exact lt_asymm hback hafter
    · exact ne_of_gt hafter hsame
  · have hsame := sortOrder_eq hlisted'.milestone hlisted.milestone hsingle' heq
    have hafter := hlast.trans (hsame ▸ hfirst)
    rcases hle with hback | ⟨-, htext'⟩
    · exact absurd hback (not_lt_of_ge hafter)
    unfold textThen at htext'
    have hkey := hkeys definition hlisted.milestone definition' hlisted'.milestone (Bool.and_eq_true_iff.mp htext').1 htext
    rw [hkey] at hplace
    exact Nat.lt_irrefl _ hplace

/-- The timeline of a package is ordered and numbered exactly when the rows of every milestone fit before those of
the later ones. -/
theorem timelineOrdered_iff (hle : TotalPreorder textLe) (hkeys : ∀ definition ∈ milestones, ∀ definition' ∈ milestones,
      textLe definition.milestoneKey definition'.milestoneKey = true →
        textLe definition'.milestoneKey definition.milestoneKey = true → definition.milestoneKey = definition'.milestoneKey) :
    TimelineOrdered (buildEffectiveTimeline textLe facts hasData related includeNotApplicable) ↔
      RowsFit textLe facts hasData related includeNotApplicable := by
  refine ⟨rowsFit_of_ordered hle, fun hfit => ?_⟩
  have hsorted : (listedRows textLe facts hasData related includeNotApplicable).Pairwise fun row row' =>
      rowLe textLe row row' = true :=
    (pairwise_mergeSort (totalPreorder_rowLe hle).trans (totalPreorder_rowLe hle).total _).filter _
  have hplaces : (listedRows textLe facts hasData related includeNotApplicable).Pairwise fun row row' =>
      sections.idxOf row.sectionKey ≤ sections.idxOf row'.sectionKey ∧
        milestonePlace row.milestoneKey ≤ milestonePlace row'.milestoneKey := by
    apply hsorted.imp_of_mem
    intro row row' hrow hrow' hbefore
    obtain ⟨definition, ordinal, hlisted⟩ := listed_of_mem hrow
    obtain ⟨definition', ordinal', hlisted'⟩ := listed_of_mem hrow'
    have hplace := place_le_of_rowLe hkeys hfit hlisted hlisted' hbefore
    rw [hlisted.key, hlisted'.key, hlisted.inSection, hlisted'.inSection]
    exact ⟨sections_le_of_place_le hlisted.milestone hlisted'.milestone hplace, hplace⟩
  rw [← map_withoutCodes_timeline, pairwise_map] at hplaces
  refine ⟨hplaces.imp And.left, hplaces.imp And.right, fun s number hnumber => ?_⟩
  apply numbered_assignTimelineDisplayCodes
    ((milestones.flatMap (rowsOf textLe facts hasData related)).mergeSort (rowLe textLe)) _ _ hnumber
  intro s'
  unfold buildEffectiveTimeline
  dsimp only
  split
  · rfl
  · exact sectionRows_filter _ s'

theorem rowsFit_of_few (h : ∀ kind, (distinctEntities (related kind)).length < 1000) :
    RowsFit textLe facts hasData related includeNotApplicable := by
  intro definition hdefinition definition' hdefinition' hplace _ _
  have hanchors := sortAnchor_add_le hdefinition hdefinition' hplace
  have hlast : lastOrdinal facts hasData related includeNotApplicable definition < 1000 := by
    unfold lastOrdinal shownCount
    cases definition.repeatable with
    | some kind => exact h kind
    | none => exact Nat.succ_pos _
  refine Or.inl ?_
  unfold hundredths
  omega

end Fit

/-! ## Too many requests -/

def codePointLe (left right : String) : Bool := left ≤ right

theorem totalPreorder_codePointLe : TotalPreorder codePointLe where
  trans a b c hab hbc := decide_eq_true (le_trans (of_decide_eq_true hab) (of_decide_eq_true hbc))
  total a b := by
    rw [Bool.or_eq_true]
    exact (le_total a b).imp (fun h => decide_eq_true h) fun h => decide_eq_true h

theorem codePointLe_antisymm {left right : String} (h : codePointLe left right = true)
    (h' : codePointLe right left = true) : left = right :=
  le_antisymm (of_decide_eq_true h) (of_decide_eq_true h')

/-- An open tender in one envelope, without consultants. -/
def openTender : TimelineFacts where
  selectionMethod := .openTender
  selectionProcedure := .oneStageOneEnvelope
  planApproval := .separate
  isConsultingPackage := false
  preparationInternal := true
  preparationAppointmentDecision := false
  preparationContract := false
  expertTeam := true
  appraisalInternal := true
  appraisalAppointmentDecision := false
  appraisalContract := false
  appraisalTeam := false
  appraisalReport := false
  appraisalRequirement := .notRequired

def sampleEntity (number : ℕ) : TimelineEntity := ⟨"request-" ++ Nat.repr number, some 1, "2026-01-01", false⟩

def requestsAndResponse (count : ℕ) : EntityKind → List TimelineEntity
  | .clarificationRequests => (List.range count).map sampleEntity
  | .clarificationResponses => [sampleEntity 0]
  | _ => []

theorem timelineOrdered_sample :
    TimelineOrdered (buildEffectiveTimeline codePointLe openTender (fun _ _ => false) (requestsAndResponse 2) false) := by
  apply (timelineOrdered_iff totalPreorder_codePointLe fun _ _ _ _ => codePointLe_antisymm).mpr
  apply rowsFit_of_few
  intro kind
  cases kind <;> decide

theorem distinctEntities_eq_self {items : List TimelineEntity} (hactive : ∀ item ∈ items, item.archived = false)
    (hids : ∀ item ∈ items, item.id ≠ "") (hnodup : (items.map TimelineEntity.id).Nodup) : distinctEntities items = items := by
  have hfold (entries : List TimelineEntity) (start : ℕ) (seen : List String) (kept : List TimelineEntity)
      (hids : ∀ item ∈ entries, item.id ≠ "") (hnodup : (entries.map TimelineEntity.id).Nodup)
      (hfresh : ∀ item ∈ entries, item.id ∉ seen) :
      ((entries.zipIdx start).foldl (fun (state : List String × List TimelineEntity) entry =>
        let stableId := if entry.1.id = "" then s!"repeatable-{entry.2}" else entry.1.id
        if stableId ∈ state.1 then state else (stableId :: state.1, state.2 ++ [entry.1])) (seen, kept)).2 =
          kept ++ entries := by
    induction entries generalizing start seen kept with
    | nil => exact (append_nil kept).symm
    | cons item entries ih =>
      rw [map_cons, nodup_cons] at hnodup
      rw [forall_mem_cons] at hids hfresh
      rw [zipIdx_cons, foldl_cons]
      dsimp only
      rw [if_neg hids.1, if_neg hfresh.1, ih _ _ _ hids.2 hnodup.2, append_assoc, singleton_append]
      intro other hother hseen
      rcases mem_cons.mp hseen with heq | hold
      · exact hnodup.1 (mem_map.mpr ⟨other, hother, heq⟩)
      · exact hfresh.2 other hother hold
  unfold distinctEntities
  rw [filter_eq_self.mpr fun item hitem => by rw [hactive item hitem]; rfl]
  exact hfold items 0 [] [] hids hnodup fun _ _ => not_mem_nil

theorem distinctEntities_requests (count : ℕ) :
    distinctEntities ((List.range count).map sampleEntity) = (List.range count).map sampleEntity := by
  apply distinctEntities_eq_self
  · intro item hitem
    obtain ⟨number, -, rfl⟩ := mem_map.mp hitem
    rfl
  · intro item hitem heq
    obtain ⟨number, -, rfl⟩ := mem_map.mp hitem
    have hempty : ("request-" ++ Nat.repr number).toList = [] := by
      rw [show "request-" ++ Nat.repr number = "" from heq]
      rfl
    rw [String.toList_append] at hempty
    exact cons_ne_nil _ _ hempty
  · rw [map_map]
    apply nodup_range.map
    intro number number' heq
    have htexts : ("request-" ++ Nat.repr number).toList = ("request-" ++ Nat.repr number').toList :=
      congrArg String.toList heq
    rw [String.toList_append, String.toList_append] at htexts
    have hdigits : (Nat.repr number).toList = (Nat.repr number').toList := append_cancel_left htexts
    unfold Nat.repr at hdigits
    rw [String.toList_ofList, String.toList_ofList] at hdigits
    exact toDigits_inj hdigits

theorem count_le_of_rowsFit {count : ℕ}
    (h : RowsFit codePointLe openTender (fun _ _ => false) (requestsAndResponse count) false) : count ≤ 1001 := by
  have hrequests : (⟨"E_HSMT_CLARIFICATION_REQUEST", .eHsmt, .relatedEntity, [.eHsmt, .dynamic],
      some .clarificationRequests, 520⟩ : Milestone) ∈ milestones := by decide
  have hresponses : (⟨"E_HSMT_CLARIFICATION_RESPONSE", .eHsmt, .relatedEntity, [.eHsmt, .dynamic],
      some .clarificationResponses, 530⟩ : Milestone) ∈ milestones := by decide
  have hcount : (distinctEntities (requestsAndResponse count .clarificationRequests)).length = count := by
    unfold requestsAndResponse
    rw [distinctEntities_requests, length_map, length_range]
  have hresponse : (distinctEntities (requestsAndResponse count .clarificationResponses)).length = 1 := rfl
  by_contra hnot
  have hfits := h _ hrequests _ hresponses (by decide)
  unfold lastOrdinal shownCount hundredths firstOrdinal at hfits
  simp only [Option.isSome_some, if_true, hcount, hresponse] at hfits
  rcases hfits (by omega) Nat.one_pos with hlt | ⟨heq, -⟩
  · omega
  · omega

/-- With 1002 requests the last of them is listed after the response. -/
theorem requests_run_into_response : ¬ TimelineOrdered
    (buildEffectiveTimeline codePointLe openTender (fun _ _ => false) (requestsAndResponse 1002) false) := by
  intro hordered
  have hcount := count_le_of_rowsFit (rowsFit_of_ordered totalPreorder_codePointLe hordered)
  exact absurd hcount (by decide)

end Bidding.Timeline
