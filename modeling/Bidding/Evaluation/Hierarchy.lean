import Bidding.Foundations.RollUp
import Bidding.Foundations.StableRank
import Bidding.Outbox.References

/-!
# The hierarchy of evaluation criteria

The criteria of a detailed evaluation form a forest, by parent ids or by dotted numbers. The results of the criteria
that have children are computed from those of the children, the longest numbers first.
-/

namespace Bidding.Evaluation

open Foundations

/-- A criterion of a detailed evaluation; a missing text is empty. -/
structure Criterion where
  id : String
  group : String
  stt : String
  sourceStt : String
  parentCriterionId : Option String
  tieuChiChaId : Option String
  resultType : String
  hasChildren : Bool
  deriving DecidableEq

/-- The field `extension` of a row, as far as it is read here. -/
structure RowExtension where
  ketQuaTuDong : String
  rest : Record
  deriving DecidableEq

/-- A row of a report: the result of one criterion. -/
structure ResultRow where
  id : String
  tieuChiDanhGiaId : String
  ketQua : String
  ketQuaTuDong : String
  extension : Option RowExtension
  rest : Record
  deriving DecidableEq

structure EvaluationReport where
  id : String
  chiTietList : List ResultRow
  rest : Record
  deriving DecidableEq

/-- The parts of a dotted number, or none if the text is no dotted number; a point at its end does not count. -/
def dottedParts (text : String) : List (List Char) :=
  let trimmed := (jsTrim text).toList
  let stt := if trimmed.getLast? = some '.' then trimmed.dropLast else trimmed
  let parts := stt.splitOn '.'
  if parts.all fun part => !part.isEmpty && part.all Char.isDigit then parts else []

/-- `String(criterion.stt || criterion.sourceStt || "")`. -/
def sttText (criterion : Criterion) : String := if criterion.stt ≠ "" then criterion.stt else criterion.sourceStt

def sttParts (criterion : Criterion) : List (List Char) := dottedParts (sttText criterion)

/-- `String(candidate.parentCriterionId ?? candidate.tieuChiChaId ?? "")`. -/
def explicitParentText (candidate : Criterion) : String :=
  (candidate.parentCriterionId <|> candidate.tieuChiChaId).getD ""

def explicitParentId (candidate : Criterion) : String := jsTrim (explicitParentText candidate)

def isDirectChild (parent candidate : Criterion) : Bool :=
  if candidate.group ≠ parent.group || candidate.id = parent.id then false
  else if explicitParentId candidate ≠ "" then explicitParentId candidate = parent.id
  else (sttParts candidate).length = (sttParts parent).length + 1 && (sttParts parent).isPrefixOf (sttParts candidate)

variable (criteria : List Criterion)

def directChildren (parent : Criterion) : List Criterion :=
  if (sttParts parent).isEmpty then [] else criteria.filter (isDirectChild parent)

def aggregateChildResults (results : List String) : String :=
  if results.any (· = "fail") then "fail"
  else if !results.isEmpty && results.all (· ∈ ["pass", "acceptable", "not_applicable"]) then "pass"
  else "pending"

variable (criterion : Criterion)

/-- `{ ...criterion, hasChildren }`. -/
def markCriterion : Criterion :=
  { criterion with hasChildren := !(directChildren criteria criterion).isEmpty }

def markHierarchicalDetailedEvaluationCriteria : List Criterion :=
  criteria.map (markCriterion criteria)

/-- `row.ketQua || "pending"` of the row of a criterion. -/
def resultOf (rows : Dict String ResultRow) (id : String) : String :=
  match rows.get? id with
  | some row => if row.ketQua ≠ "" then row.ketQua else "pending"
  | none => "pending"

/-- `row.extension?.ketQuaTuDong || row.ketQuaTuDong || "pending"` of the row of a criterion. -/
def automaticOf (rows : Dict String ResultRow) (id : String) : String :=
  match rows.get? id with
  | some row =>
    let extended := (row.extension.map (·.ketQuaTuDong)).getD ""
    if extended ≠ "" then extended else if row.ketQuaTuDong ≠ "" then row.ketQuaTuDong else "pending"
  | none => "pending"

/-- `{ ...row, extension: { ...(row.extension || {}) } }`. -/
def withExtension (row : ResultRow) : ResultRow :=
  { row with extension := some (row.extension.getD ⟨"", .empty⟩) }

/-- The rows of a report by criterion; of several rows of one criterion the last one counts. -/
def rowsOf (report : EvaluationReport) : Dict String ResultRow :=
  Dict.ofList (report.chiTietList.map fun row => (row.tieuChiDanhGiaId, withExtension row))

def newResultRow (reportId criterionId : String) : ResultRow where
  id := "detailed-evaluation-row:" ++ (if reportId ≠ "" then reportId else "pending") ++ ":" ++ criterionId
  tieuChiDanhGiaId := criterionId
  ketQua := ""
  ketQuaTuDong := ""
  extension := none
  rest := .empty

/-- The row of one criterion, computed from those of its children. -/
def rolledUpRow (reportId : String) (rows : Dict String ResultRow) (criterion : Criterion) : ResultRow :=
  let children := directChildren criteria criterion
  let previous := (rows.get? criterion.id).getD (newResultRow reportId criterion.id)
  { previous with
    ketQua := aggregateChildResults (children.map fun child => resultOf rows child.id)
    extension := some { previous.extension.getD ⟨"", .empty⟩ with
      ketQuaTuDong := aggregateChildResults (children.map fun child => automaticOf rows child.id) } }

def rollUpCriterion (reportId : String) (rows : Dict String ResultRow) (criterion : Criterion) : Dict String ResultRow :=
  rows.set criterion.id (rolledUpRow criteria reportId rows criterion)

def evaluationOrder (marked : List Criterion) : List Criterion :=
  (marked.filter fun criterion => criterion.hasChildren && criterion.resultType = "pass_fail").mergeSort
    fun left right => (sttParts right).length ≤ (sttParts left).length

def applyHierarchicalDetailedEvaluationResults (report : EvaluationReport) (criteria : List Criterion) : EvaluationReport :=
  let marked := markHierarchicalDetailedEvaluationCriteria criteria
  { report with chiTietList :=
      ((evaluationOrder marked).foldl (rollUpCriterion marked report.id) (rowsOf report)).values }

def ChildOf (criteria : List Criterion) (c p : String) : Prop :=
  ∃ parent ∈ criteria, ∃ child ∈ directChildren criteria parent, child.id = c ∧ parent.id = p

/-- The criteria are a forest under the children that are found: no two have one id, none has two parents, and none is below
itself. -/
structure IsFoundForest (criteria : List Criterion) : Prop where
  ids : (criteria.map (·.id)).Nodup
  parent_unique : ∀ c p q, ChildOf criteria c p → ChildOf criteria c q → p = q
  acyclic : ∀ c, ¬Relation.TransGen (ChildOf criteria) c c

def IsRolledUp : Prop :=
  criterion.resultType = "pass_fail" ∧ directChildren criteria criterion ≠ []

def ShowsAggregate (children : List Criterion) (report : EvaluationReport) (criterion : Criterion) : Prop :=
  ∃ row extension, (rowsOf report).get? criterion.id = some row ∧ row.extension = some extension ∧
    row.ketQua = aggregateChildResults (children.map fun child => resultOf (rowsOf report) child.id) ∧
    extension.ketQuaTuDong = aggregateChildResults (children.map fun child => automaticOf (rowsOf report) child.id)

/-- Rolling up is right for every report as far as children are found. -/
def RollsUpFound : Prop :=
  ∀ report, let after := applyHierarchicalDetailedEvaluationResults report criteria
    (∀ criterion ∈ criteria, IsRolledUp criteria criterion →
      ShowsAggregate (directChildren criteria criterion) after criterion) ∧
    (∀ id, (∀ criterion ∈ criteria, IsRolledUp criteria criterion → criterion.id ≠ id) →
      (rowsOf after).get? id = (rowsOf report).get? id) ∧
    applyHierarchicalDetailedEvaluationResults after criteria = after

/-- Whether a criterion stands directly below another one of its group: it names the other as its parent, or it names none and
its dotted number continues the other's by one part. -/
def standsBelow (parent candidate : Criterion) : Bool :=
  if candidate.group ≠ parent.group || candidate.id = parent.id then false
  else if explicitParentId candidate ≠ "" then explicitParentId candidate = parent.id
  else !(sttParts parent).isEmpty &&
    ((sttParts candidate).length = (sttParts parent).length + 1 && (sttParts parent).isPrefixOf (sttParts candidate))

def childrenOf (parent : Criterion) : List Criterion := criteria.filter (standsBelow parent)

def Below (criteria : List Criterion) (c p : String) : Prop :=
  ∃ parent ∈ criteria, ∃ child ∈ childrenOf criteria parent, child.id = c ∧ parent.id = p

/-- The criteria are a forest: no two have one id, none has two parents, and none is below itself. -/
structure IsForest (criteria : List Criterion) : Prop where
  ids : (criteria.map (·.id)).Nodup
  parent_unique : ∀ c p q, Below criteria c p → Below criteria c q → p = q
  acyclic : ∀ c, ¬Relation.TransGen (Below criteria) c c

def HasAggregate : Prop :=
  criterion.resultType = "pass_fail" ∧ childrenOf criteria criterion ≠ []

/-- Rolling up is right for every report: the pass/fail criteria that have children show what their children have together, the
rows of all others are as they were, and rolling up again changes nothing. -/
def RollsUp : Prop :=
  ∀ report, let after := applyHierarchicalDetailedEvaluationResults report criteria
    (∀ criterion ∈ criteria, HasAggregate criteria criterion → ShowsAggregate (childrenOf criteria criterion) after criterion) ∧
    (∀ id, (∀ criterion ∈ criteria, HasAggregate criteria criterion → criterion.id ≠ id) →
      (rowsOf after).get? id = (rowsOf report).get? id) ∧
    applyHierarchicalDetailedEvaluationResults after criteria = after

def ParentsNumbered : Prop :=
  ∀ criterion ∈ criteria, HasAggregate criteria criterion → sttParts criterion ≠ []

/-- Where both a criterion and a child of it are computed, the number of the child is longer, or as long and the child stands
before the criterion. -/
def ChildrenFirst : Prop :=
  ∀ parent ∈ criteria, ∀ child ∈ directChildren criteria parent,
    IsRolledUp criteria parent → IsRolledUp criteria child → (sttParts parent).length < (sttParts child).length ∨
        ((sttParts parent).length = (sttParts child).length ∧ [child, parent].Sublist criteria)

end Bidding.Evaluation
