import Bidding.Foundations.CheckedWrites
import Bidding.Procurement.Merge

/-!
# Decisions on a preview

The preview of a source revision leaves open which local package an observation continues, which value a field in conflict
takes, and what a required field holds. The decisions are checked against it and written over the merged fields.
-/

namespace Bidding.ImportDecisions

open Foundations

/-- `ProcurementDecisionError`. -/
structure DecisionError where
  code : String
  message : String
  statusCode : ℕ
  deriving DecidableEq

/-- What the preview says of an observation of the revision. -/
structure PreviewRow where
  planDetailRevisionId : String
  action : String
  matchCandidates : List Candidate
  candidateMergeSurfaces : Dict String Candidate
  effectiveFields : Option Record
  fieldConflicts : List FieldConflict
  requiredIssues : List String
  localTarget : Option LocalTarget

/-- A row that says which package an observation continues. -/
structure PackageMatch where
  revisionId : String
  packageObservationId : String
  localRootId : String
  isNew : Bool
  deriving DecidableEq

/-- A row about a field: the resolution of a conflict, or the value of a required field. -/
structure FieldRow (α : Type) where
  revisionId : String
  packageObservationId : String
  field : String
  localRootId : String
  choice : α

/-- The decisions of a request; `otherKeys` are the keys it has besides these. -/
structure Decisions where
  investorId : String
  packageMatches : List PackageMatch
  fieldConflicts : List (FieldRow String)
  fieldValues : List (FieldRow Value)
  otherKeys : List String

structure Revision where
  revisionId : String
  packages : List Observation
  deriving DecidableEq

inductive Choice where
  | new
  | localRoot (root : String)
  deriving DecidableEq

structure Resolved where
  revision : Revision
  packageDecisions : Dict String Choice
  localTargets : Dict String LocalTarget

/-- `if not condition: raise error`. -/
def ensure (condition : Bool) (error : DecisionError) : Except DecisionError Unit :=
  if condition then .ok () else .error error

/-- `"Quyết định preview không hợp lệ."` -/
def invalidPreview : DecisionError := ⟨"PROCUREMENT_DECISION_INVALID", "Quyết định preview không hợp lệ.", 400⟩

def decisionRows {ρ : Type} (rows : List ρ) : Except DecisionError (List ρ) :=
  if rows.length > 500 then .error invalidPreview else .ok rows

def isScoped (revisionId rowRevisionId : String) : Bool := rowRevisionId = "" || rowRevisionId = revisionId

/-- `observations`, of the packages of one id the last. -/
def observationsOf (revision : Revision) : Dict String Observation :=
  .ofList (revision.packages.map fun package => (package.planDetailRevisionId, package))

def previewById (previewRows : List PreviewRow) : Dict String PreviewRow :=
  .ofList (previewRows.filterMap fun row =>
    if row.planDetailRevisionId ≠ "" then some (row.planDetailRevisionId, row) else none)

/-- `action == "AMBIGUOUS"`. -/
def PreviewRow.isAmbiguous (row : PreviewRow) : Bool := row.action = "AMBIGUOUS"

def PreviewRow.hasCandidateSpecificSurface (row : PreviewRow) : Bool :=
  !row.candidateMergeSurfaces.isEmpty ||
    row.matchCandidates.any fun candidate => candidate.baseFields.isSome || candidate.localFields.isSome

section

variable (observations : Dict String Observation) (preview : Dict String PreviewRow)

/-- `"Quyết định không thuộc revision hiện tại."` -/
def foreignRow : DecisionError :=
  ⟨"PROCUREMENT_DECISION_INVALID", "Quyết định không thuộc revision hiện tại.", 400⟩

/-- `"Quyết định ghép gói không thuộc preview hiện tại."` -/
def foreignMatch : DecisionError :=
  ⟨"PROCUREMENT_MATCH_DECISION_INVALID", "Quyết định ghép gói không thuộc preview hiện tại.", 409⟩

/-- `"Dòng gói được chọn không hợp lệ."` -/
def invalidMatch : DecisionError := ⟨"PROCUREMENT_MATCH_DECISION_INVALID", "Dòng gói được chọn không hợp lệ.", 409⟩

/-- The choice of a row for an ambiguous observation: a new package or one of the candidates. -/
def matchChoice (row : PreviewRow) (decision : PackageMatch) : Except DecisionError Choice :=
  let selectedRoot := pyStrip decision.localRootId
  let candidateRoots := row.matchCandidates.map fun candidate => candidate.rootId
  if decision.isNew = decide (selectedRoot ≠ "") ∨ (selectedRoot ≠ "" ∧ selectedRoot ∉ candidateRoots) then
    .error invalidMatch
  else .ok (if decision.isNew then .new else .localRoot selectedRoot)

/-- A row of `packageMatches`. -/
def checkMatch (decision : PackageMatch) : Except DecisionError (String × Choice) :=
  let observationId := decision.packageObservationId
  if !observations.contains observationId then .error foreignRow
  else
    match preview.get? observationId with
    | none => .error foreignMatch
    | some row =>
      if !row.isAmbiguous then .error foreignMatch
      else (matchChoice row decision).map fun choice => (observationId, choice)

variable (packageDecisions : Dict String Choice)

/-- The candidate of a root: its merge surface, or else the candidate as it is listed. -/
def PreviewRow.candidateOf (row : PreviewRow) (root : String) : Option Candidate :=
  (row.candidateMergeSurfaces.get? root).or (row.matchCandidates.find? fun candidate => candidate.rootId = root)

/-- `"Ứng viên gói được chọn không còn thuộc preview hiện tại."` -/
def lostCandidate : DecisionError :=
  ⟨"PROCUREMENT_MATCH_DECISION_INVALID", "Ứng viên gói được chọn không còn thuộc preview hiện tại.", 409⟩

def matchedSurface (row : PreviewRow) (observation : Observation) (candidate : Candidate) : Surface :=
  let surface := resolvePackageAgainstLocalTarget observation (some candidate)
  if surface.fieldConflicts.isEmpty && row.candidateMergeSurfaces.isEmpty then
    { surface with fieldConflicts := row.fieldConflicts }
  else surface

def previewSurface (row : Option PreviewRow) (observation : Observation) : Surface where
  effectiveFields := (row.bind fun row => row.effectiveFields).getD .empty
  fieldConflicts := (row.map fun row => row.fieldConflicts).getD []
  requiredIssues :=
    let issues := (row.map fun row => row.requiredIssues).getD []
    if issues.isEmpty then
      requiredPackageIssues ((row.bind fun row => row.effectiveFields).getD observation.fields)
    else issues
  localTargetAuthority := row.bind fun row => row.localTarget

def surfaceOf (observationId : String) (observation : Observation) : Except DecisionError Surface :=
  match preview.get? observationId with
  | none => .ok (previewSurface none observation)
  | some row =>
    if row.isAmbiguous then
      match packageDecisions.get? observationId with
      | some .new => .ok (resolvePackageAgainstLocalTarget observation none)
      | choice =>
        let selectedRoot :=
          match choice with
          | some (.localRoot root) => root
          | _ => ""
        match row.candidateOf selectedRoot with
        | none => .error lostCandidate
        | some candidate => .ok (matchedSurface row observation candidate)
    else .ok (previewSurface (some row) observation)

/-- `surfaces`. -/
def checkSurface (entry : String × Observation) : Except DecisionError (String × Surface) :=
  (surfaceOf preview packageDecisions entry.1 entry.2).map fun surface => (entry.1, surface)

/-! ## Fields -/

variable (surfaces : Dict String Surface)

def expectedRoot (observationId : String) : String :=
  match packageDecisions.get? observationId with
  | some (.localRoot root) => root
  | _ => ""

/-- A row about a field of an ambiguous observation names the candidate that was chosen. -/
def namesChosen (observationId localRootId : String) : Bool :=
  match preview.get? observationId with
  | none => true
  | some row =>
    !row.isAmbiguous || !row.hasCandidateSpecificSurface || packageDecisions.get? observationId = some .new ||
      localRootId = expectedRoot packageDecisions observationId

/-- `"Giá trị trường bổ sung không hợp lệ."` -/
def invalidValue : DecisionError :=
  ⟨"PROCUREMENT_DECISION_INVALID", "Giá trị trường bổ sung không hợp lệ.", 400⟩

/-- `int(text)` of a text that is written as the number is. -/
def writtenNatural (text : String) : Option ℕ :=
  let digits := (pyStrip text).toList
  if digits ≠ [] ∧ digits.length ≤ 4300 ∧ digits = Nat.toDigits 10 (Nat.ofDigitChars 10 digits 0) then
    some (Nat.ofDigitChars 10 digits 0)
  else none

def coerceRequiredValue (field : String) (value : Value) : Except DecisionError Value :=
  if field = "priceVnd" then
    match value with
    | .num n => if 0 ≤ n then .ok (.num n) else .error invalidValue
    | .str text =>
      match writtenNatural text with
      | some n => .ok (.num n)
      | none => .error invalidValue
    | _ => .error invalidValue
  else
    match value with
    | .null => .ok (.str "")
    | .bool b => .ok (.str (if b then "True" else "False"))
    | .num n => .ok (.str (toString n))
    | .str text => .ok (.str (pyStrip text))
    | _ => .error invalidValue

/-- `"Quyết định field không thuộc ứng viên gói đang chọn."` -/
def foreignValue : DecisionError :=
  ⟨"PROCUREMENT_DECISION_INVALID", "Quyết định field không thuộc ứng viên gói đang chọn.", 409⟩

/-- `"Field bổ sung không thuộc blocking issue hiện tại."` -/
def foreignField : DecisionError :=
  ⟨"PROCUREMENT_DECISION_INVALID", "Field bổ sung không thuộc blocking issue hiện tại.", 400⟩

/-- A row of `fieldValues`. -/
def checkFieldValue (row : FieldRow Value) : Except DecisionError ((String × String) × Value) :=
  if !observations.contains row.packageObservationId then .error foreignRow
  else if !namesChosen preview packageDecisions row.packageObservationId row.localRootId then .error foreignValue
  else if row.field ∉ ((surfaces.get? row.packageObservationId).map fun surface => surface.requiredIssues).getD [] then
    .error foreignField
  else (coerceRequiredValue row.field row.choice).map fun value => ((row.packageObservationId, row.field), value)

inductive Resolution where
  | keepLocal
  | applySource
  deriving DecidableEq

/-- `str(row.get("resolution") or "").upper()`. -/
def resolutionOf (text : String) : Option Resolution :=
  let upper := String.ofList (text.toList.map Char.toUpper)
  if upper = "KEEP_LOCAL" then some .keepLocal else if upper = "APPLY_SOURCE" then some .applySource else none

def FieldConflict.named (conflict : FieldConflict) : Resolution → Value
  | .keepLocal => conflict.localValue
  | .applySource => conflict.sourceValue

/-- `"Quyết định xung đột không thuộc ứng viên gói đang chọn."` -/
def foreignConflict : DecisionError :=
  ⟨"PROCUREMENT_DECISION_INVALID", "Quyết định xung đột không thuộc ứng viên gói đang chọn.", 409⟩

/-- `"Quyết định xung đột field không hợp lệ."` -/
def invalidConflict : DecisionError :=
  ⟨"PROCUREMENT_DECISION_INVALID", "Quyết định xung đột field không hợp lệ.", 400⟩

def conflictOf (observationId field : String) : Option FieldConflict :=
  (((surfaces.get? observationId).map fun surface => surface.fieldConflicts).getD []).find? fun conflict =>
    conflict.field = field

/-- A row of `fieldConflicts`. -/
def checkFieldConflict (row : FieldRow String) : Except DecisionError ((String × String) × Resolution × Value) :=
  if !observations.contains row.packageObservationId then .error foreignRow
  else if !namesChosen preview packageDecisions row.packageObservationId row.localRootId then .error foreignConflict
  else
    match conflictOf surfaces row.packageObservationId row.field, resolutionOf row.choice with
    | some conflict, some resolution => .ok ((row.packageObservationId, row.field), resolution, conflict.named resolution)
    | _, _ => .error invalidConflict

/-! ## The resolved revision -/

/-- `overrides` before the decisions: the merged fields of the observations. -/
def initialOverrides : Dict String Record :=
  (surfaces.filterEntries fun _ surface => !surface.effectiveFields.isEmpty).map fun surface => surface.effectiveFields

/-- `conflict_resolutions` and `overrides`. -/
structure Written where
  conflictResolutions : Dict (String × String) Resolution
  overrides : Dict String Record

/-- `conflict_resolutions[(observation_id, field)] = …; overrides[observation_id][field] = …`. -/
def Written.put (written : Written) (key : String × String) (entry : Resolution × Value) : Written where
  conflictResolutions := written.conflictResolutions.set key entry.1
  overrides := written.overrides.set₂ key.1 key.2 entry.2

/-- `overrides.setdefault(observation_id, {})[field] = value`. -/
def putOverride (overrides : Dict String Record) (key : String × String) (value : Value) : Dict String Record :=
  overrides.set₂ key.1 key.2 value

def allResolved (conflictResolutions : Dict (String × String) Resolution) : Bool :=
  surfaces.entries.all fun entry =>
    entry.2.fieldConflicts.all fun conflict => conflictResolutions.contains (entry.1, conflict.field)

/-- An observation with the decided fields. -/
def resolvedObservation (overrides : Dict String Record) (observation : Observation) : Observation :=
  let id := observation.planDetailRevisionId
  let override := (overrides.get? id).getD .empty
  { observation with
    fields := observation.fields.spread override
    effectiveFields := observation.effectiveFields.map fun fields => fields.spread override
    canonicalSourceFields := some (((observations.get? id).map fun source =>
        source.fields.filterKeys fun key => decide (key ∈ sourceOwnedPackageFields)).getD .empty)
    sourceAction :=
      match preview.get? id with
      | some row =>
        if row.action ∈ ["CHANGED", "UNCHANGED", "ALREADY_IMPORTED"] then some row.action else observation.sourceAction
      | none => observation.sourceAction }

/-- `local_targets[observation_id]`. -/
def localTargetOf (observationId : String) : Option LocalTarget :=
  let row := preview.get? observationId
  let localTarget := ((surfaces.get? observationId).bind fun surface => surface.localTargetAuthority).or
    (row.bind fun row => row.localTarget)
  match packageDecisions.get? observationId with
  | some (.localRoot root) =>
    let candidate := row.bind fun row => row.matchCandidates.find? fun candidate => candidate.rootId = root
    some
      { rootId := ""
        localRootId := root
        snapshotId := candidate.bind fun candidate => candidate.snapshotId
        localVersion := (candidate.map fun candidate => candidate.localVersion).getD .null
        rowVersion := (candidate.map fun candidate => candidate.rowVersion).getD .null
        isLatest := (candidate.map fun candidate => candidate.isLatest).getD true }
  | _ =>
    (localTarget.filter fun target => target.rootId ≠ "").map fun target =>
      { target with rootId := "", localRootId := target.rootId }

/-- `"Phải xác nhận mọi gói có kết quả ghép mơ hồ."` -/
def ambiguousMatch : DecisionError :=
  ⟨"PROCUREMENT_MATCH_AMBIGUOUS", "Phải xác nhận mọi gói có kết quả ghép mơ hồ.", 409⟩

/-- `"Phải xử lý mọi xung đột field trước khi áp dụng."` -/
def openConflict : DecisionError :=
  ⟨"PROCUREMENT_FIELD_CONFLICT", "Phải xử lý mọi xung đột field trước khi áp dụng.", 409⟩

/-- `"Gói thầu vẫn thiếu trường bắt buộc."` -/
def missingFields : DecisionError :=
  ⟨"PROCUREMENT_REQUIRED_FIELDS_MISSING", "Gói thầu vẫn thiếu trường bắt buộc.", 422⟩

def isComplete (observation : Observation) : Bool :=
  (requiredPackageIssues (observation.effectiveFields.getD observation.fields)).isEmpty

end

def resolveRevisionDecisions (revision : Revision) (previewRows : List PreviewRow)
    (decisions : Decisions) (enforceRequired : Bool) : Except DecisionError Resolved := do
  let packageMatches := (← decisionRows decisions.packageMatches).filter fun row =>
    isScoped revision.revisionId row.revisionId
  let fieldConflicts := (← decisionRows decisions.fieldConflicts).filter fun row =>
    isScoped revision.revisionId row.revisionId
  let fieldValues := (← decisionRows decisions.fieldValues).filter fun row => isScoped revision.revisionId row.revisionId
  let observations := observationsOf revision
  let preview := previewById previewRows
  let packageDecisions ← writeRows (checkMatch observations preview) Dict.set packageMatches Dict.empty
  ensure (previewRows.all fun row => !row.isAmbiguous || packageDecisions.contains row.planDetailRevisionId) ambiguousMatch
  let surfaces ← writeRows (checkSurface preview packageDecisions) Dict.set observations.entries Dict.empty
  let overrides ← writeRows (checkFieldValue observations preview packageDecisions surfaces) putOverride fieldValues
    (initialOverrides surfaces)
  let written ← writeRows (checkFieldConflict observations preview packageDecisions surfaces) Written.put
    fieldConflicts ⟨Dict.empty, overrides⟩
  ensure (allResolved surfaces written.conflictResolutions) openConflict
  let packages := revision.packages.map (resolvedObservation observations preview written.overrides)
  ensure (!enforceRequired || packages.all isComplete) missingFields
  return {
    revision := { revision with packages }
    packageDecisions
    localTargets := .ofList (revision.packages.filterMap fun package =>
      (localTargetOf preview packageDecisions surfaces package.planDetailRevisionId).map fun target =>
        (package.planDetailRevisionId, target)) }

end Bidding.ImportDecisions
