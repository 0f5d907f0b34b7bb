import Bidding.Foundations.Json
import Bidding.Foundations.Scalar

/-!
# The merge of a package

Field by field the change of the source and the local change of the package matched to it are put together; where both
sides changed a field to different values, the local value stays and a conflict is raised.
-/

namespace Bidding.ImportDecisions

open Foundations

def sourceOwnedPackageFields : List String :=
  ["symbol", "name", "summary", "priceVnd", "estimatePriceVnd", "field", "capitalDetail", "selectionForm",
    "selectionMode", "evaluationMethod", "technicalWeight", "selectionDuration", "selectionStart", "contractType",
    "executionPeriod", "onlineMode", "domesticOrInternational", "lots", "goodsItems", "isMultiLot",
    "isPrequalification", "isConcentrateShopping", "additionalPurchaseOption", "additionalPurchaseItems",
    "bidValidityDays", "bidGuaranteeVnd", "approvalDecisionNo", "approvalDecisionDate", "actualOpeningAt",
    "financialActualOpeningAt", "lifecycleStatus", "noticeLink", "noticeFields", "expectedNotice", "sourceStatus"]

/-- `fields.get(key)`. -/
def valueOf (fields : Record) (key : String) : Value := (fields.get? key).getD .null

/-- `bool(str(value or "").strip())`. -/
def isPresent : Value → Bool
  | .null => false
  | .bool b => b
  | .num n => n ≠ 0
  | .str s => pyStrip s ≠ ""
  | .arr xs => !xs.isEmpty
  | .obj fields => !fields.isEmpty

/-- `value not in (None, "")`. -/
def isNamed : Value → Bool
  | .null => false
  | .str s => s ≠ ""
  | _ => true

/-- `isinstance(value, int) and value >= 0`. -/
def isAmount : Value → Bool
  | .bool _ => true
  | .num n => 0 ≤ n
  | _ => false

def requiredChecks (package : Record) : List (String × Bool) :=
  [("name", isNamed (valueOf package "name")), ("priceVnd", isAmount (valueOf package "priceVnd")),
    ("executionPeriod", isPresent (valueOf package "executionPeriod")),
    ("capitalDetail", isPresent (valueOf package "capitalDetail")),
    ("selectionDuration", isPresent (valueOf package "selectionDuration")),
    ("selectionStart", isPresent (valueOf package "selectionStart"))]

/-- `required_package_issues(package)`, the fields of the issues. -/
def requiredPackageIssues (package : Record) : List String :=
  ((requiredChecks package).filter fun check => !check.2).map Prod.fst

inductive Disposition where
  | keepLocal
  | applySource
  | conflict
  deriving DecidableEq

mutual

/-- `left == right` in Python, for JSON values. -/
def pyEq : Value → Value → Bool
  | .null, .null => true
  | .bool b, .bool c => b == c
  | .bool b, .num n => n == b.toInt
  | .num n, .bool b => n == b.toInt
  | .num m, .num n => m == n
  | .str s, .str t => s == t
  | .arr xs, .arr ys => pyEqList xs ys
  | .obj fields, .obj others => fields.length == others.length && pyEqFields fields others
  | _, _ => false

/-- `left == right` of lists. -/
def pyEqList : List Value → List Value → Bool
  | [], [] => true
  | x :: xs, y :: ys => pyEq x y && pyEqList xs ys
  | _, _ => false

def pyEqFields : List (String × Value) → List (String × Value) → Bool
  | [], _ => true
  | (key, x) :: fields, others =>
    (match others.lookup key with
      | some y => pyEq x y
      | none => false) && pyEqFields fields others

end

def threeWayMergeField (base localValue source : Value) (sourceOwned : Bool) : Value × Disposition :=
  if !sourceOwned then (localValue, .keepLocal)
  else
    let localChanged := !pyEq localValue base
    let sourceChanged := !pyEq source base
    if localChanged && sourceChanged && !pyEq localValue source then (localValue, .conflict)
    else if sourceChanged then (source, .applySource)
    else (localValue, .keepLocal)

/-! ## The surface of a package -/

/-- An observation of a package in a source revision; `fields` are all its fields. -/
structure Observation where
  planDetailRevisionId : String
  fields : Record
  effectiveFields : Option Record
  canonicalSourceFields : Option Record
  sourceAction : Option String
  deriving DecidableEq

/-- A conflict over a field. -/
structure FieldConflict where
  field : String
  baseValue : Value
  localValue : Value
  sourceValue : Value
  deriving DecidableEq

/-- The local package a surface is for. -/
structure LocalTarget where
  rootId : String
  localRootId : String
  snapshotId : Option String
  localVersion : Value
  rowVersion : Value
  isLatest : Bool
  deriving DecidableEq

/-- A local package that an observation may be matched to, as the preview names it. -/
structure Candidate where
  rootId : String
  localRootId : String
  id : Option String
  snapshotId : Option String
  localVersion : Value
  rowVersion : Value
  isLatest : Bool
  baseFields : Option Record
  sourceFields : Option Record
  localFields : Option Record
  deriving DecidableEq

/-- `a or b` of dictionaries. -/
def orFields (first : Option Record) (otherwise : Record) : Record :=
  match first with
  | some fields => if fields.isEmpty then otherwise else fields
  | none => otherwise

variable (candidate : Candidate)

def Candidate.base : Record :=
  orFields candidate.baseFields (orFields candidate.sourceFields .empty)

def Candidate.localMap : Record := orFields candidate.localFields candidate.base

/-- What a candidate makes of an observation. -/
structure Surface where
  effectiveFields : Record
  fieldConflicts : List FieldConflict
  requiredIssues : List String
  localTargetAuthority : Option LocalTarget
  deriving DecidableEq

def packageSourceFields (package : Record) : Record :=
  .ofList (sourceOwnedPackageFields.filterMap fun key => (package.get? key).map fun value => (key, value))

def mergedFields (base localMap source : Record) : List String :=
  (base.keys ++ localMap.keys ++ source.keys).eraseDups.filter fun field => field ∈ sourceOwnedPackageFields

def mergeOf (base localMap source : Record) (field : String) : Value × Disposition :=
  threeWayMergeField (valueOf base field) (valueOf localMap field) (valueOf source field) true

/-- `str(rootId or localRootId or id or "")`. -/
def Candidate.root : String :=
  if candidate.rootId ≠ "" then candidate.rootId
  else if candidate.localRootId ≠ "" then candidate.localRootId
  else candidate.id.getD ""

def resolvePackageAgainstLocalTarget (observation : Observation) (candidate : Option Candidate) : Surface :=
  let sourceFields := packageSourceFields observation.fields
  match candidate with
  | none =>
    { effectiveFields := sourceFields
      fieldConflicts := []
      requiredIssues := requiredPackageIssues (observation.fields.spread sourceFields)
      localTargetAuthority := none }
  | some candidate =>
    let fields := mergedFields candidate.base candidate.localMap sourceFields
    let merged := mergeOf candidate.base candidate.localMap sourceFields
    let effectiveFields : Record := .ofList (fields.map fun field => (field, (merged field).1))
    { effectiveFields
      fieldConflicts := (fields.filter fun field => (merged field).2 = .conflict).map fun field =>
        ⟨field, valueOf candidate.base field, valueOf candidate.localMap field, valueOf sourceFields field⟩
      requiredIssues := requiredPackageIssues (observation.fields.spread effectiveFields)
      localTargetAuthority := some
        { rootId := ""
          localRootId := candidate.root
          snapshotId := (candidate.snapshotId.filter fun id => id ≠ "").or candidate.id
          localVersion := candidate.localVersion
          rowVersion := candidate.rowVersion
          isLatest := candidate.isLatest } }

end Bidding.ImportDecisions
