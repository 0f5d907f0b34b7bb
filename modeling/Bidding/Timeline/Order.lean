import Mathlib.Data.List.Pairwise
import Bidding.Timeline.Catalog

/-!
# The order of the effective timeline

A row of a repeatable milestone is sorted by the anchor of the milestone and a hundredth for every row before it, so the
rows of a milestone stay before the next as long as there are not too many of them.
-/

namespace Bidding.Timeline

open Foundations List

/-- The fields of an entity that its milestone reads; `sequence` is the number it is read as. -/
structure TimelineEntity where
  id : String
  sequence : Option ℤ
  date : String
  archived : Bool
  deriving DecidableEq

/-- A row of the timeline; what it copies of a saved entry or of its source is left out. -/
structure TimelineRow where
  milestoneKey : String
  instanceKey : String
  sectionKey : Section
  applicability : Applicability
  applicabilityReason : String
  sortOrder : ℚ
  displayCode : String
  displayGroupCode : String
  deriving DecidableEq

section Timeline

/- The order of texts: by code points on the server, `localeCompare` on the client. -/
variable (textLe : String → String → Bool)

/-- `_active(items)`, and of every id the first. -/
def distinctEntities (items : List TimelineEntity) : List TimelineEntity :=
  let active := items.filter fun item => !item.archived
  (active.zipIdx.foldl (fun (state : List String × List TimelineEntity) entry =>
    let stableId := if entry.1.id = "" then s!"repeatable-{entry.2}" else entry.1.id
    if stableId ∈ state.1 then state else (stableId :: state.1, state.2 ++ [entry.1])) ([], [])).2

def entitySort (entity : TimelineEntity) : ℤ × String × String :=
  let sequence := entity.sequence.getD 100000
  (if sequence ≤ 0 then 100000 else sequence, entity.date, if entity.id = "" then "0" else entity.id)

def textThen (left right : String) (rest : Bool) : Bool := textLe left right && (!textLe right left || rest)

def entityLe (left right : TimelineEntity) : Bool :=
  let key := entitySort left
  let key' := entitySort right
  key.1 < key'.1 || (key.1 = key'.1 && textThen textLe key.2.1 key'.2.1 (textLe key.2.2 key'.2.2))

def sortOrder (definition : Milestone) (ordinal : ℕ) : ℚ :=
  if definition.repeatable.isSome then double (double definition.sortAnchor + double (ordinal / 100))
  else double definition.sortAnchor

variable (facts : TimelineFacts) (hasData : String → String → Bool)

/-- `_make_row(definition, entity, ordinal, …)`; `hasData` says whether the saved entry or the source of a row has
any data. -/
def makeRow (definition : Milestone) (entityId : String) (ordinal : ℕ) : TimelineRow :=
  let instanceKey :=
    if definition.repeatable.isNone then ""
    else if entityId = "" then s!"{definition.milestoneKey}-{ordinal}"
    else entityId
  let result := ruleResult definition facts (hasData definition.milestoneKey instanceKey)
  { milestoneKey := definition.milestoneKey, instanceKey, sectionKey := definition.sectionKey,
    applicability := result.1, applicabilityReason := result.2, sortOrder := sortOrder definition ordinal,
    displayCode := "", displayGroupCode := "" }

def romanNumeral (value : ℕ) : String :=
  ([(1000, "M"), (900, "CM"), (500, "D"), (400, "CD"), (100, "C"), (90, "XC"), (50, "L"), (40, "XL"), (10, "X"),
    (9, "IX"), (5, "V"), (4, "IV"), (1, "I")].foldl (fun (state : ℕ × String) (entry : ℕ × String) =>
        (state.1 % entry.1, state.2 ++ String.join (List.replicate (state.1 / entry.1) entry.2)))
      (value, "")).2

def visibleSections (rows : List TimelineRow) : List Section :=
  sections.filter fun s => rows.any fun row => row.applicability ≠ .notApplicable && row.sectionKey = s

/-- The codes of the rows, by the number of each section and the rows of the section before. -/
def assignCodes (sectionNumber : Section → ℕ) : (Section → ℕ) → List TimelineRow → List TimelineRow
  | _, [] => []
  | counters, row :: rows =>
    if row.applicability = .notApplicable then
      { row with displayCode := "", displayGroupCode := "" } :: assignCodes sectionNumber counters rows
    else
      { row with
        displayCode := s!"{sectionNumber row.sectionKey}.{counters row.sectionKey + 1}"
        displayGroupCode := romanNumeral (sectionNumber row.sectionKey) } ::
          assignCodes sectionNumber
            (fun s => if s = row.sectionKey then counters s + 1 else counters s) rows

def assignTimelineDisplayCodes (rows : List TimelineRow) : List TimelineRow :=
  assignCodes (fun s => (visibleSections rows).idxOf s + 1) (fun _ => 0) rows

def rowLe (left right : TimelineRow) : Bool :=
  left.sortOrder < right.sortOrder ||
    (left.sortOrder = right.sortOrder &&
      textThen textLe left.milestoneKey right.milestoneKey (textLe left.instanceKey right.instanceKey))

variable (related : EntityKind → List TimelineEntity)

def rowsOf (definition : Milestone) : List TimelineRow :=
  match definition.repeatable with
  | some kind =>
    (((distinctEntities (related kind)).mergeSort (entityLe textLe)).zipIdx 1).map fun entry =>
      makeRow facts hasData definition entry.1.id entry.2
  | none => [makeRow facts hasData definition "" 0]

def buildEffectiveTimeline (includeNotApplicable : Bool) : List TimelineRow :=
  let rows := (milestones.flatMap (rowsOf textLe facts hasData related)).mergeSort (rowLe textLe)
  let assigned := assignTimelineDisplayCodes rows
  if includeNotApplicable then assigned else assigned.filter fun row => row.applicability ≠ .notApplicable

end Timeline

def milestonePlace (key : String) : ℕ := (milestones.map Milestone.milestoneKey).idxOf key

def sectionRows (rows : List TimelineRow) (s : Section) : List TimelineRow :=
  rows.filter fun row => row.applicability ≠ .notApplicable && row.sectionKey = s

/-- A timeline is ordered: its sections are contiguous and in the order of the catalog, so are its milestones, and
the rows of a section that apply are numbered from 1 on. -/
structure TimelineOrdered (rows : List TimelineRow) : Prop where
  sectionsInOrder : rows.Pairwise fun row row' => sections.idxOf row.sectionKey ≤ sections.idxOf row'.sectionKey
  milestonesInOrder : rows.Pairwise fun row row' => milestonePlace row.milestoneKey ≤ milestonePlace row'.milestoneKey
  numbered : ∀ s number, (visibleSections rows)[number]? = some s →
    (sectionRows rows s).map (fun row => (row.displayCode, row.displayGroupCode)) =
      (List.range' 1 (sectionRows rows s).length).map fun place => (s!"{number + 1}.{place}", romanNumeral (number + 1))

/-! ## The codes -/

def withoutCodes (row : TimelineRow) : TimelineRow := { row with displayCode := "", displayGroupCode := "" }

variable (sectionNumber counters : Section → ℕ)

theorem map_withoutCodes_assignCodes (rows : List TimelineRow) :
    (assignCodes sectionNumber counters rows).map withoutCodes = rows.map withoutCodes := by
  induction rows generalizing counters with
  | nil => rfl
  | cons row rows ih =>
    unfold assignCodes
    split
    · rw [map_cons, map_cons, ih]
      rfl
    · rw [map_cons, map_cons, ih]
      rfl

variable (rows : List TimelineRow)

theorem sectionRows_map (s : Section) : (sectionRows rows s).map withoutCodes = sectionRows (rows.map withoutCodes) s := by
  unfold sectionRows
  rw [filter_map]
  rfl

theorem visibleSections_eq : visibleSections rows = sections.filter fun s => !(sectionRows rows s).isEmpty := by
  unfold visibleSections sectionRows
  apply filter_congr
  intro s _
  rw [Bool.eq_iff_iff, any_eq_true, Bool.not_eq_true', isEmpty_eq_false_iff]
  constructor
  · rintro ⟨row, hrow, happlies⟩
    exact ne_nil_of_mem (mem_filter.mpr ⟨hrow, happlies⟩)
  · intro hsome
    obtain ⟨row, hrow⟩ := exists_mem_of_ne_nil _ hsome
    exact ⟨row, (mem_filter.mp hrow).1, (mem_filter.mp hrow).2⟩

theorem visibleSections_congr {rows rows' : List TimelineRow}
    (h : ∀ s, (sectionRows rows s).map withoutCodes = (sectionRows rows' s).map withoutCodes) :
    visibleSections rows = visibleSections rows' := by
  rw [visibleSections_eq, visibleSections_eq]
  apply filter_congr
  intro s _
  have hlength := congrArg List.length (h s)
  rw [length_map, length_map] at hlength
  cases hrows : sectionRows rows s with
  | nil =>
    rw [hrows] at hlength
    rw [eq_nil_of_length_eq_zero hlength.symm]
  | cons row rest =>
    rw [hrows] at hlength
    cases hrows' : sectionRows rows' s with
    | nil =>
      rw [hrows'] at hlength
      cases hlength
    | cons row' rest' => rfl

theorem codes_assignCodes (rows : List TimelineRow) (s : Section) :
    (sectionRows (assignCodes sectionNumber counters rows) s).map (fun row => (row.displayCode, row.displayGroupCode)) =
      (List.range' (counters s + 1) (sectionRows (assignCodes sectionNumber counters rows) s).length).map
        fun place => (s!"{sectionNumber s}.{place}", romanNumeral (sectionNumber s)) := by
  induction rows generalizing counters with
  | nil => rfl
  | cons row rows ih =>
    unfold assignCodes
    by_cases happlies : row.applicability = .notApplicable
    · rw [if_pos happlies]
      have hskip : sectionRows ({ row with displayCode := "", displayGroupCode := "" } ::
          assignCodes sectionNumber counters rows) s = sectionRows (assignCodes sectionNumber counters rows) s :=
        filter_cons_of_neg (by simp [happlies])
      rw [hskip]
      exact ih counters
    · rw [if_neg happlies]
      by_cases hs : row.sectionKey = s
      · subst hs
        have hnext := ih fun s' => if s' = row.sectionKey then counters s' + 1 else counters s'
        unfold sectionRows at hnext ⊢
        rw [filter_cons_of_pos (by simp [happlies]), map_cons, length_cons, range'_succ,
          map_cons, hnext, if_pos rfl]
      · have hnext := ih fun s' => if s' = row.sectionKey then counters s' + 1 else counters s'
        unfold sectionRows at hnext ⊢
        rw [filter_cons_of_neg (by simp [hs]), hnext, if_neg (Ne.symm hs)]

theorem sectionRows_filter (s : Section) :
    sectionRows (rows.filter fun row => row.applicability ≠ .notApplicable) s = sectionRows rows s := by
  unfold sectionRows
  rw [filter_filter]
  exact filter_congr fun row _ => by cases happlies : decide (row.applicability ≠ .notApplicable) <;> simp

theorem numbered_assignTimelineDisplayCodes (rows listed : List TimelineRow)
    (hlisted : ∀ s, sectionRows listed s = sectionRows (assignTimelineDisplayCodes rows) s) {s : Section} {number : ℕ}
    (hs : (visibleSections listed)[number]? = some s) :
    (sectionRows listed s).map (fun row => (row.displayCode, row.displayGroupCode)) =
      (List.range' 1 (sectionRows listed s).length).map fun place => (s!"{number + 1}.{place}", romanNumeral (number + 1)) := by
  have hvisible : visibleSections listed = visibleSections rows := by
    apply visibleSections_congr
    intro s'
    rw [hlisted, sectionRows_map, sectionRows_map]
    unfold assignTimelineDisplayCodes
    rw [map_withoutCodes_assignCodes]
  have hnodup : (visibleSections rows).Nodup := filter_sublist.nodup (by decide)
  rw [hvisible] at hs
  have hnumber : (visibleSections rows).idxOf s + 1 = number + 1 := by
    obtain ⟨hlt, hget⟩ := List.getElem?_eq_some_iff.mp hs
    rw [← hget, hnodup.idxOf_getElem number hlt]
  have hcodes := codes_assignCodes (fun s => (visibleSections rows).idxOf s + 1) (fun _ => 0) rows s
  rw [hlisted]
  unfold assignTimelineDisplayCodes
  rw [hcodes, hnumber]

section Order

variable {textLe : String → String → Bool} {facts : TimelineFacts} {hasData : String → String → Bool}
  {related : EntityKind → List TimelineEntity} {includeNotApplicable : Bool} {definition : Milestone}

section

variable (hle : TotalPreorder textLe)
include hle

theorem textThen_trans {x y z : String} {rest rest' rest'' : Bool}
    (hxy : textThen textLe x y rest = true) (hyz : textThen textLe y z rest' = true)
    (hrest : rest = true → rest' = true → rest'' = true) : textThen textLe x z rest'' = true := by
  unfold textThen at hxy hyz ⊢
  rw [Bool.and_eq_true, Bool.or_eq_true, Bool.not_eq_true'] at hxy hyz ⊢
  refine ⟨hle.trans x y z hxy.1 hyz.1, ?_⟩
  cases hzx : textLe z x with
  | false => exact Or.inl rfl
  | true =>
    have hyx := hle.trans y z x hyz.1 hzx
    have hzy := hle.trans z x y hzx hxy.1
    refine Or.inr (hrest ?_ ?_)
    · exact hxy.2.resolve_left (by rw [hyx]; decide)
    · exact hyz.2.resolve_left (by rw [hzy]; decide)

theorem textThen_total {x y : String} {rest rest' : Bool}
    (hrest : (rest || rest') = true) : (textThen textLe x y rest || textThen textLe y x rest') = true := by
  have htotal := hle.total x y
  unfold textThen
  cases hxy : textLe x y <;> cases hyx : textLe y x <;> simp_all

theorem totalPreorder_rowLe : TotalPreorder (rowLe textLe) where
  trans a b c hab hbc := by
    unfold rowLe at hab hbc ⊢
    rw [Bool.or_eq_true, decide_eq_true_iff, Bool.and_eq_true, decide_eq_true_iff] at hab hbc ⊢
    rcases hab with hlt | ⟨heq, htext⟩
    · rcases hbc with hlt' | ⟨heq', -⟩
      · exact Or.inl (hlt.trans hlt')
      · exact Or.inl (heq' ▸ hlt)
    · rcases hbc with hlt' | ⟨heq', htext'⟩
      · exact Or.inl (heq ▸ hlt')
      · exact Or.inr ⟨heq.trans heq', textThen_trans hle htext htext' (hle.trans _ _ _)⟩
  total a b := by
    unfold rowLe
    rcases lt_trichotomy a.sortOrder b.sortOrder with hlt | heq | hgt
    · simp [hlt]
    · have htext := @textThen_total textLe hle a.milestoneKey b.milestoneKey _ _ (hle.total a.instanceKey b.instanceKey)
      rw [Bool.or_eq_true] at htext
      rcases htext with htext | htext <;> simp [heq, htext]
    · simp [hgt]

end

def listedRows (textLe : String → String → Bool) (facts : TimelineFacts) (hasData : String → String → Bool)
    (related : EntityKind → List TimelineEntity) (includeNotApplicable : Bool) : List TimelineRow :=
  ((milestones.flatMap (rowsOf textLe facts hasData related)).mergeSort (rowLe textLe)).filter fun row =>
    includeNotApplicable || row.applicability ≠ .notApplicable

theorem withoutCodes_of_mem_rowsOf {row : TimelineRow}
    (h : row ∈ rowsOf textLe facts hasData related definition) : withoutCodes row = row := by
  unfold rowsOf at h
  split at h
  · obtain ⟨entry, -, rfl⟩ := mem_map.mp h
    rfl
  · rw [mem_singleton.mp h]
    rfl

theorem map_withoutCodes_timeline :
    (buildEffectiveTimeline textLe facts hasData related includeNotApplicable).map withoutCodes =
      listedRows textLe facts hasData related includeNotApplicable := by
  have hblank : ((milestones.flatMap (rowsOf textLe facts hasData related)).mergeSort (rowLe textLe)).map withoutCodes =
      (milestones.flatMap (rowsOf textLe facts hasData related)).mergeSort (rowLe textLe) := by
    rw [map_congr_left (g := id), map_id]
    intro row hrow
    obtain ⟨definition, -, hin⟩ := mem_flatMap.mp (mem_mergeSort.mp hrow)
    exact withoutCodes_of_mem_rowsOf hin
  unfold buildEffectiveTimeline listedRows assignTimelineDisplayCodes
  dsimp only
  cases includeNotApplicable with
  | true =>
    rw [if_pos rfl, map_withoutCodes_assignCodes, hblank, filter_eq_self.mpr]
    exact fun row _ => Bool.true_or _
  | false =>
    rw [if_neg Bool.false_ne_true]
    have hfilter (rows : List TimelineRow) : (rows.filter fun row => row.applicability ≠ .notApplicable).map withoutCodes =
        (rows.map withoutCodes).filter fun row => row.applicability ≠ .notApplicable := by
      rw [filter_map]
      rfl
    rw [hfilter, map_withoutCodes_assignCodes, hblank]
    exact filter_congr fun row _ => (Bool.false_or _).symm

theorem repeatable_applies (h : definition ∈ milestones) (hrepeatable : definition.repeatable.isSome = true) (data : Bool) :
    (ruleResult definition facts data).1 = .applicable := by
  have hcatalog : ∀ d ∈ milestones, d.repeatable.isSome = true →
      d.applicabilityRule = .relatedEntity ∧ .appraisal ∉ d.tags ∧ .twoEnvelopeOnly ∉ d.tags ∧
        .competitiveTender ∉ d.tags ∧ .optional ∉ d.tags ∧ d.milestoneKey ∉ mandatoryTwoEnvelopeMilestones := by
    decide
  obtain ⟨hrule, happraisal, htwo, hcompetitive, hoptional, hmandatory⟩ := hcatalog definition h hrepeatable
  unfold ruleResult
  simp [hrule, happraisal, htwo, hcompetitive, hoptional, hmandatory, ruleBranch]

end Order

end Bidding.Timeline
