import Bidding.Procurement.Merged

/-!
# Local work is kept

A package that is matched to a candidate ends, in every field the source carries, with what only one side changed, with
what both changed alike, and with what a decision names where the two sides changed the field apart.
-/

namespace Bidding.ImportDecisions

open Foundations

def PreviewRow.CarriesMaps (row : PreviewRow) : Prop :=
  row.candidateMergeSurfaces.isEmpty = false ∨ row.fieldConflicts = []

def LocalChanged (candidate : Candidate) (field : String) : Prop :=
  pyEq (valueOf candidate.localMap field) (valueOf candidate.base field) = false

def SourceChanged (observation : Observation) (candidate : Candidate) (field : String) : Prop :=
  pyEq (valueOf observation.fields field) (valueOf candidate.base field) = false

def InConflict (observation : Observation) (candidate : Candidate) (field : String) : Prop :=
  LocalChanged candidate field ∧ SourceChanged observation candidate field ∧
    pyEq (valueOf candidate.localMap field) (valueOf observation.fields field) = false

def IsAbout {α : Type} (revision : Revision) (id field : String) (row : FieldRow α) : Prop :=
  isScoped revision.revisionId row.revisionId = true ∧ row.packageObservationId = id ∧ row.field = field

def decidedValue (observation : Observation) (candidate : Candidate) (field : String) : Resolution → Value
  | .keepLocal => valueOf candidate.localMap field
  | .applySource => valueOf observation.fields field

def EndsDecided (revision : Revision) (decisions : Decisions) (observation : Observation) (candidate : Candidate)
    (field : String) (final : Value) : Prop :=
  ∃ row ∈ decisions.fieldConflicts, IsAbout revision observation.planDetailRevisionId field row ∧
    ∃ resolution, resolutionOf row.choice = some resolution ∧ final = decidedValue observation candidate field resolution

def EndsGiven (revision : Revision) (decisions : Decisions) (observation : Observation) (field : String)
    (final : Value) : Prop :=
  ∃ row ∈ decisions.fieldValues, IsAbout revision observation.planDetailRevisionId field row ∧
    coerceRequiredValue row.field row.choice = .ok final

/-- A package that is matched to a candidate. -/
structure Matched (revision : Revision) (previewRows : List PreviewRow) (result : Resolved) (observation : Observation)
    (candidate : Candidate) : Prop where
  observed : (observationsOf revision).get? observation.planDetailRevisionId = some observation
  chosen : ∃ row root, (previewById previewRows).get? observation.planDetailRevisionId = some row ∧
    row.isAmbiguous = true ∧ row.CarriesMaps ∧
    result.packageDecisions.get? observation.planDetailRevisionId = some (.localRoot root) ∧
    row.candidateOf root = some candidate

variable {revision : Revision} {previewRows : List PreviewRow} {decisions : Decisions} {enforceRequired : Bool}
  {result : Resolved} {observation : Observation} {candidate : Candidate} {field : String}

theorem fieldMerge_of_conflict (h : InConflict observation candidate field) :
    fieldMerge observation candidate field = (valueOf candidate.localMap field, .conflict) := by
  obtain ⟨hlocal, hsource, happart⟩ := h
  unfold LocalChanged at hlocal
  unfold SourceChanged at hsource
  unfold fieldMerge threeWayMergeField
  simp [hlocal, hsource, happart]

theorem fieldMerge_of_sourceChanged (h : ¬InConflict observation candidate field)
    (hsource : SourceChanged observation candidate field) :
    fieldMerge observation candidate field = (valueOf observation.fields field, .applySource) := by
  have hjoint : ¬(pyEq (valueOf candidate.localMap field) (valueOf candidate.base field) = false ∧
      pyEq (valueOf candidate.localMap field) (valueOf observation.fields field) = false) :=
    fun hboth => h ⟨hboth.1, hsource, hboth.2⟩
  unfold SourceChanged at hsource
  unfold fieldMerge threeWayMergeField
  simp only [hsource]
  cases hlocal : pyEq (valueOf candidate.localMap field) (valueOf candidate.base field) with
  | true => rfl
  | false =>
    cases happart : pyEq (valueOf candidate.localMap field) (valueOf observation.fields field) with
    | true => rfl
    | false => exact absurd ⟨hlocal, happart⟩ hjoint

theorem fieldMerge_of_sourceKept (hsource : ¬SourceChanged observation candidate field) :
    fieldMerge observation candidate field = (valueOf candidate.localMap field, .keepLocal) := by
  have heq : pyEq (valueOf observation.fields field) (valueOf candidate.base field) = true := by
    unfold SourceChanged at hsource
    simpa using hsource
  unfold fieldMerge threeWayMergeField
  simp [heq]

theorem fieldMerge_conflict_iff :
    (fieldMerge observation candidate field).2 = .conflict ↔ InConflict observation candidate field := by
  constructor
  · intro h
    by_contra hnot
    by_cases hsource : SourceChanged observation candidate field
    · rw [fieldMerge_of_sourceChanged hnot hsource] at h
      cases h
    · rw [fieldMerge_of_sourceKept hsource] at h
      cases h
  · intro h
    rw [fieldMerge_of_conflict h]

/-! ## The surface of a matched package -/

variable {packageDecisions : Dict String Choice} {surfaces : Dict String Surface} {overrides : Dict String Record}
  {written : Written}

section

variable (stages : Stages revision previewRows decisions enforceRequired packageDecisions surfaces overrides written)
include stages

section

variable (h : Matched revision previewRows (resolvedOf revision previewRows packageDecisions surfaces written) observation candidate)
include h

theorem Matched.surface : surfaces.get? observation.planDetailRevisionId =
    some (resolvePackageAgainstLocalTarget observation (some candidate)) := by
  obtain ⟨surface, hget, hsurface⟩ := stages.surface h.observed
  obtain ⟨row, root, hrow, hambiguous, hmaps, hchoice, hcandidate⟩ := h.chosen
  have hchosen : packageDecisions.get? observation.planDetailRevisionId = some (.localRoot root) := hchoice
  unfold surfaceOf at hsurface
  simp only [hrow, hambiguous, if_true, hchosen, hcandidate] at hsurface
  have heq : matchedSurface row observation candidate = resolvePackageAgainstLocalTarget observation (some candidate) := by
    unfold matchedSurface
    rcases hmaps with hmaps | hnone
    · simp [hmaps]
    dsimp only
    split_ifs with hempty
    · have hconflicts : (resolvePackageAgainstLocalTarget observation (some candidate)).fieldConflicts = [] :=
        List.isEmpty_iff.mp (Bool.and_eq_true_iff.mp hempty).1
      rw [hnone, ← hconflicts]
    · rfl
  rw [hget, ← Except.ok.inj hsurface, heq]

/-- The fields of a matched package end as the merge and the decisions say. -/
structure FieldEnds (revision : Revision) (decisions : Decisions) (observation : Observation) (candidate : Candidate)
    (field : String) (final : Value) : Prop where
  decided : InConflict observation candidate field → EndsDecided revision decisions observation candidate field final
  given : ¬InConflict observation candidate field →
    (∃ row ∈ decisions.fieldValues, IsAbout revision observation.planDetailRevisionId field row) →
    EndsGiven revision decisions observation field final
  source : ¬InConflict observation candidate field →
    (∀ row ∈ decisions.fieldValues, ¬IsAbout revision observation.planDetailRevisionId field row) →
    SourceChanged observation candidate field → final = valueOf observation.fields field
  kept : (∀ row ∈ decisions.fieldValues, ¬IsAbout revision observation.planDetailRevisionId field row) →
    ¬SourceChanged observation candidate field → final = valueOf candidate.localMap field

theorem Matched.fieldEnds (hfield : field ∈ sourceOwnedPackageFields) : FieldEnds revision decisions observation candidate field
    (valueOf (resolvedObservation (observationsOf revision) (previewById previewRows) written.overrides observation).fields
      field) := by
  have hsurface := h.surface stages
  have hconflictOf : conflictOf surfaces observation.planDetailRevisionId field =
      if (fieldMerge observation candidate field).2 = .conflict then
        some ⟨field, valueOf candidate.base field, valueOf candidate.localMap field, valueOf observation.fields field⟩
      else none := by
    rw [conflictOf_eq hsurface, find?_fieldConflicts hfield]
  rw [valueOf_resolvedObservation]
  have hmerged : (∀ row ∈ decisions.fieldValues, ¬IsAbout revision observation.planDetailRevisionId field row) →
      ¬InConflict observation candidate field →
      (overrideOf written.overrides (observation.planDetailRevisionId, field)).getD (valueOf observation.fields field) =
        (fieldMerge observation candidate field).1 := by
    intro hnone hconflict
    rw [if_neg fun heq => hconflict (fieldMerge_conflict_iff.mp heq)] at hconflictOf
    rw [stages.overrideOf_of_no_conflict hconflictOf, stages.overrideOf_of_no_value, hsurface, Option.bind_some]
    · exact effectiveFields_getD hfield
    · intro row hrow hscoped habout
      exact hnone row hrow ⟨hscoped, habout⟩
  refine ⟨?_, ?_, ?_, ?_⟩
  · intro hconflict
    rw [if_pos (fieldMerge_conflict_iff.mpr hconflict)] at hconflictOf
    have hmem := List.mem_of_find?_eq_some ((conflictOf_eq hsurface field).symm.trans hconflictOf)
    obtain ⟨row, hrow, hscoped, hid, hname, resolution, decided, hresolution, hdecided, hoverride⟩ :=
      stages.conflict_decided hsurface hmem
    have hsame : decided = ⟨field, valueOf candidate.base field, valueOf candidate.localMap field,
        valueOf observation.fields field⟩ := Option.mem_unique hdecided hconflictOf
    refine ⟨row, hrow, ⟨hscoped, hid, hname⟩, resolution, hresolution, ?_⟩
    rw [hoverride, hsame]
    cases resolution with
    | keepLocal => rfl
    | applySource => rfl
  · rintro hconflict ⟨given, hgiven, hscoped, hid, hname⟩
    rw [if_neg fun heq => hconflict (fieldMerge_conflict_iff.mp heq)] at hconflictOf
    obtain ⟨row, hrow, hscoped', hid', hname', ⟨value, hvalue, hoverride⟩, -⟩ := stages.overrideOf_of_value hgiven hscoped
    rw [hid, hname] at hoverride
    rw [stages.overrideOf_of_no_conflict hconflictOf, hoverride]
    exact ⟨row, hrow, ⟨hscoped', hid'.trans hid, hname'.trans hname⟩, hvalue⟩
  · intro hconflict hnone hsource
    rw [hmerged hnone hconflict, fieldMerge_of_sourceChanged hconflict hsource]
  · intro hnone hsource
    have hconflict : ¬InConflict observation candidate field := fun h => hsource h.2.1
    rw [hmerged hnone hconflict, fieldMerge_of_sourceKept hsource]

end

end

end Bidding.ImportDecisions
