import Mathlib.Data.Prod.Lex
import Mathlib.Data.String.Basic
import Bidding.Foundations.StableRank
import Bidding.Procurement.KeptFields

/-!
# The decisions on a bundle

The decisions of a request are about all revisions of a bundle. They are checked as a whole first, where no two rows may
decide the same; then each revision is resolved with the rows that are about it, and the rows are put in order for the
digest.
-/

namespace Bidding.ImportDecisions

open Foundations

structure Bundle where
  revisions : List Revision
  reconciliationByRevision : Dict String (List PreviewRow)

/-- What the decisions on a bundle come to. -/
structure Authority where
  decisionsDigest : String
  investorId : Option String
  resolvedRevisions : List Revision
  packageDecisionsByRevision : Dict String (Dict String Choice)
  localTargetsByRevision : Dict String (Dict String LocalTarget)

/-! ## The rows of a bundle -/

section

variable (revisions : List Revision) (reconciliation : Dict String (List PreviewRow))

/-- `observation_revisions.get(observation_id)`. -/
def observationRevisions (observationId : String) : List String :=
  ((revisions.filter fun revision => observationId ≠ "" &&
      revision.packages.any fun package => package.planDetailRevisionId = observationId).map
    fun revision => revision.revisionId).eraseDups

def rowAppliesToRevision (rowRevisionId observationId revisionId : String) : Bool :=
  if rowRevisionId ≠ "" then rowRevisionId = revisionId
  else observationRevisions revisions observationId = [revisionId]

def normalizedKey (rowRevisionId observationId field : String) : String × String × String :=
  let revisionId :=
    if rowRevisionId = "" then
      match observationRevisions revisions observationId with
      | [only] => only
      | _ => ""
    else rowRevisionId
  (revisionId, observationId, field)

def effectiveRevision (rowRevisionId observationId : String) : String :=
  if rowRevisionId ≠ "" then rowRevisionId else (observationRevisions revisions observationId).headD ""

/-- `preview_rows` of a revision. -/
def previewOf (revisionId : String) : List PreviewRow := (reconciliation.get? revisionId).getD []

/-- `ambiguous`. -/
def ambiguousRows : Dict (String × String) PreviewRow :=
  .ofList (revisions.flatMap fun revision =>
    ((previewOf reconciliation revision.revisionId).filter fun row => row.isAmbiguous).map fun row =>
      ((revision.revisionId, row.planDetailRevisionId), row))

/-- `(revision_id, observation_id) in observations`. -/
def isObserved (revisionId observationId : String) : Bool :=
  observationId ≠ "" && revisions.any fun revision => revision.revisionId = revisionId &&
    revision.packages.any fun package => package.planDetailRevisionId = observationId

/-- `"Quyết định phải nêu rõ revision nguồn."` -/
def unclearRevision : DecisionError :=
  ⟨"PROCUREMENT_DECISION_INVALID", "Quyết định phải nêu rõ revision nguồn.", 400⟩

def checkRevision (rowRevisionId observationId : String) : Except DecisionError Unit :=
  ensure (rowRevisionId ≠ "" || (observationRevisions revisions observationId).length ≤ 1) unclearRevision

/-- A row of `packageMatches` of a bundle. -/
def checkBundleMatch (row : PackageMatch) : Except DecisionError Unit := do
  checkRevision revisions row.revisionId row.packageObservationId
  let revisionId := effectiveRevision revisions row.revisionId row.packageObservationId
  ensure (isObserved revisions revisionId row.packageObservationId) foreignMatch
  match (ambiguousRows revisions reconciliation).get? (revisionId, row.packageObservationId) with
  | none => .error foreignMatch
  | some preview => (matchChoice preview row).map fun _ => ()

/-- A row of `fieldValues` of a bundle. -/
def checkBundleValue (row : FieldRow Value) : Except DecisionError Unit := do
  checkRevision revisions row.revisionId row.packageObservationId
  ensure (decide (row.field ∈ sourceOwnedPackageFields)) foreignField

/-- A row of `fieldConflicts` of a bundle. -/
def checkBundleConflict (row : FieldRow String) : Except DecisionError Unit := do
  checkRevision revisions row.revisionId row.packageObservationId
  ensure (resolutionOf row.choice).isSome invalidConflict

/-- `"Quyết định preview bị trùng lặp."` -/
def repeatedRow : DecisionError := ⟨"PROCUREMENT_DECISION_INVALID", "Quyết định preview bị trùng lặp.", 400⟩

def rejectDuplicate (keys : List (String × String × String)) : Except DecisionError Unit :=
  ensure (decide keys.Nodup) repeatedRow

def fieldKey {α : Type} (row : FieldRow α) : String × String × String :=
  normalizedKey revisions row.revisionId row.packageObservationId row.field

def matchKey (row : PackageMatch) : String × String × String :=
  normalizedKey revisions row.revisionId row.packageObservationId ""

variable (decisions : Decisions)

def validateBundleDecisions : Except DecisionError Unit := do
  let matches' ← decisionRows decisions.packageMatches
  let fieldValues ← decisionRows decisions.fieldValues
  let fieldConflicts ← decisionRows decisions.fieldConflicts
  rejectDuplicate (matches'.map (matchKey revisions))
  rejectDuplicate (fieldValues.map (fieldKey revisions))
  rejectDuplicate (fieldConflicts.map (fieldKey revisions))
  matches'.forM (checkBundleMatch revisions reconciliation)
  fieldValues.forM (checkBundleValue revisions)
  fieldConflicts.forM (checkBundleConflict revisions)

def scopedDecisions (revisionId : String) : Decisions :=
  { decisions with
    packageMatches := decisions.packageMatches.filter fun row =>
      rowAppliesToRevision revisions row.revisionId row.packageObservationId revisionId
    fieldValues := decisions.fieldValues.filter fun row =>
      rowAppliesToRevision revisions row.revisionId row.packageObservationId revisionId
    fieldConflicts := decisions.fieldConflicts.filter fun row =>
      rowAppliesToRevision revisions row.revisionId row.packageObservationId revisionId }

def resolveOne (revision : Revision) : Except DecisionError (String × Resolved) :=
  (resolveRevisionDecisions revision (previewOf reconciliation revision.revisionId)
    (scopedDecisions revisions decisions revision.revisionId) true).map fun resolved => (revision.revisionId, resolved)

end

def sortKey (revisionId observationId field : String) : String ×ₗ String ×ₗ String :=
  toLex (revisionId, toLex (observationId, field))

/-- The order of `packageMatches` in the digest. -/
def matchBefore (row other : PackageMatch) : Bool :=
  decide (sortKey row.revisionId row.packageObservationId "" ≤ sortKey other.revisionId other.packageObservationId "")

def fieldBefore {α : Type} (row other : FieldRow α) : Bool :=
  decide (sortKey row.revisionId row.packageObservationId row.field ≤
    sortKey other.revisionId other.packageObservationId other.field)

/-- `str(value or "") or None`. -/
def nonEmptyText (text : String) : Option String := if text = "" then none else some text

/-- `"Quyết định preview chứa field không được hỗ trợ."` -/
def unsupportedKey : DecisionError :=
  ⟨"PROCUREMENT_DECISION_INVALID", "Quyết định preview chứa field không được hỗ trợ.", 400⟩

/-- `canonical_digest` of the investor and the sorted rows. -/
abbrev DecisionsDigest := Option String → List PackageMatch → List (FieldRow String) → List (FieldRow Value) → String

def selectedRevisions (bundle : Bundle) (selectedRevisionIds : Option (List String)) : List Revision :=
  match selectedRevisionIds with
  | none => bundle.revisions
  | some ids => bundle.revisions.filter fun revision => revision.revisionId ∈ ids

def digestOfDecisions (canonicalDigest : DecisionsDigest) (decisions : Decisions) : String :=
  canonicalDigest (nonEmptyText decisions.investorId) (decisions.packageMatches.mergeSort matchBefore)
    (decisions.fieldConflicts.mergeSort fieldBefore) (decisions.fieldValues.mergeSort fieldBefore)

def resolvePlanDecisionAuthority (canonicalDigest : DecisionsDigest) (bundle : Bundle) (decisions : Decisions)
    (selectedRevisionIds : Option (List String)) : Except DecisionError Authority := do
  ensure decisions.otherKeys.isEmpty unsupportedKey
  let revisions := selectedRevisions bundle selectedRevisionIds
  validateBundleDecisions revisions bundle.reconciliationByRevision decisions
  let resolved ← revisions.mapM (resolveOne revisions bundle.reconciliationByRevision decisions)
  return {
    decisionsDigest := digestOfDecisions canonicalDigest decisions
    investorId := nonEmptyText decisions.investorId
    resolvedRevisions := resolved.map fun entry => entry.2.revision
    packageDecisionsByRevision := .ofList (resolved.map fun entry => (entry.1, entry.2.packageDecisions))
    localTargetsByRevision := .ofList (resolved.map fun entry => (entry.1, entry.2.localTargets)) }

end Bidding.ImportDecisions
