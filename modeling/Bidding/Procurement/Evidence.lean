import Mathlib.Data.List.MinMax
import Bidding.Foundations.Collation
import Bidding.Foundations.Json
import Bidding.Procurement.Session

/-!
# Source evidence and imported rows

The plans and packages of one organization, the evidence of the source revisions observed so far, and the bindings of the
packages to the source. Evidence and bindings are only inserted; what hits a unique constraint is ignored. The hash `uuid5`
and `canonical_digest` are parameters.
-/

namespace Bidding.Procurement

open Foundations

/-- `str.upper` and SQL `upper` on a code of the source. -/
def upperCode (text : String) : String := .ofList (text.toList.map Char.toUpper)

/-- The sources of procurement data. -/
inductive Provider where
  | vneps
  | vnepsFixture
  | muasamcong
  deriving DecidableEq

def Provider.name : Provider → String
  | vneps => "VNEPS"
  | vnepsFixture => "VNEPS_FIXTURE"
  | muasamcong => "MUASAMCONG"

/-- The notice a package of a plan is linked to. -/
structure NoticeLink where
  noticeNo : Option String
  kind : Option String
  noticeRevisionId : Option String
  noticeVersion : Option String
  deriving DecidableEq

/-- `package_source_fields`, the fields of a package the source owns: the ones something reads, and
the rest. -/
structure SourceFields where
  symbol : Option String
  noticeLink : Option NoticeLink
  noticeFields : Record
  others : Record
  deriving DecidableEq

def SourceFields.none : SourceFields := ⟨.none, .none, .empty, .empty⟩

/-- A package of a plan revision. -/
structure Observation where
  planDetailRevisionId : Option String
  stablePackageId : Option String
  sourceFields : SourceFields
  canonicalSourceFields : Option SourceFields
  sourceAction : String

/-- A revision of a plan. -/
structure Revision where
  familyNo : String
  revisionId : String
  revisionNumber : String
  revisionDigest : Option String
  packages : List Observation
  others : Record

structure Relationship where
  planNo : String
  planDetailRevisionId : String
  stablePackageId : String
  symbol : String

/-- A revision of a notice. -/
structure Notice where
  noticeNo : String
  revisionId : String
  revisionNumber : String
  revisionDigest : Option String
  relationship : Relationship
  fields : Record

inductive Snapshot where
  | plan (revision : Revision)
  | notice (notice : Notice)
  /-- the notice a package of an imported plan is linked to -/
  | linked (link : NoticeLink) (fields : Record)

/-- The organization, the order of its database on texts, and what the standard library computes. -/
structure Setting where
  organizationId : String
  collation : Collation
  text : PyText
  uuid5 : String → String
  canonicalDigest : Snapshot → String

def textOf (value : Option String) : String := pyStrip (value.getD "")

inductive EntityKind where
  | plan
  | notice
  deriving DecidableEq

def EntityKind.name : EntityKind → String
  | plan => "PLAN"
  | notice => "NOTICE"

inductive Disposition where
  | applied
  | observedNotApplied
  deriving DecidableEq

/-- A row of `goi_thau`; `root` is `COALESCE(NULLIF(id_goc, ''), id)`. -/
structure PackageRow where
  id : String
  root : String
  maGoiThau : Option String
  localVersion : ℤ
  isLatest : Bool
  archived : Bool
  keHoachId : String
  rowVersion : ℤ

/-- A row of `procurement_source_revision`. -/
structure EvidenceRow where
  id : String
  provider : Provider
  kind : EntityKind
  familyKey : String
  revisionUuid : String
  revisionNo : String
  snapshot : Snapshot
  digest : String
  disposition : Disposition
  idempotencyKey : String
  localRootId : Option String
  localSnapshotId : Option String
  createdAt : ℕ

/-- A row of `procurement_source_binding`. -/
structure BindingRow where
  id : String
  provider : Provider
  familyKey : String
  planRevisionUuid : String
  idDetail : String
  stableExternalId : Option String
  symbol : Option String
  notifyNo : Option String
  localRootId : String
  localSnapshotId : String
  canonicalFields : SourceFields

structure Store where
  plans : List PlanRow
  packages : List PackageRow
  evidence : List EvidenceRow
  bindings : List BindingRow

def Store.empty : Store := ⟨[], [], [], []⟩

/-- The order of the integers that is computed, where another one is in scope too. -/
local instance intPreorder : Preorder ℤ := Int.instLinearOrder.toPreorder

/-- `ORDER BY created_at DESC, id DESC` compares by this. -/
def EvidenceRow.rank (collation : Collation) (row : EvidenceRow) : ℕ ×ₗ Collated collation :=
  toLex (row.createdAt, row.id)

/-- `ORDER BY created_at DESC, id DESC LIMIT 1`. -/
def newest (collation : Collation) (rows : List EvidenceRow) : Option EvidenceRow :=
  rows.argmax (EvidenceRow.rank collation)

def EvidenceRow.isAbout (provider : Provider) (kind : EntityKind) (revisionId : String) (row : EvidenceRow) : Bool :=
  row.provider = provider ∧ row.kind = kind ∧ row.revisionUuid = revisionId

namespace Store

variable (collation : Collation) (s : Store)

variable (provider : Provider)

/-- `find_revision` and `find_notice_revision`. -/
def findRevision (kind : EntityKind) (revisionId : String) : Option EvidenceRow :=
  newest collation (s.evidence.filter (EvidenceRow.isAbout provider kind revisionId))

def findRevisionByNumber (kind : EntityKind) (familyNo revisionNo : String)
    (localRootId : Option String) : Option EvidenceRow :=
  newest collation (s.evidence.filter fun row =>
    row.provider = provider ∧ row.kind = kind ∧ row.familyKey = familyNo
      ∧ row.revisionNo = revisionNo ∧ (localRootId = none ∨ row.localRootId = localRootId))

def numberRank (revisionNo : String) : ℤ :=
  match takeDigits revisionNo.toList with
  | (digit :: digits, []) => digitsValue (digit :: digits)
  | _ => -1

def numberedRank (row : EvidenceRow) : ℤ ×ₗ Collated collation ×ₗ ℕ :=
  toLex (numberRank row.revisionNo, toLex (row.revisionNo, row.createdAt))

def latestNumbered (rows : List EvidenceRow) : Option EvidenceRow :=
  rows.argmax (numberedRank collation)

def latestAppliedRevision (familyNo : String) : Option String :=
  (latestNumbered collation (s.evidence.filter fun row =>
    row.provider = provider ∧ row.kind = .plan ∧ row.familyKey = familyNo ∧ row.disposition = .applied)).map (·.revisionNo)

def latestNoticeRevisionForPackage (localRootId : String) : Option EvidenceRow :=
  latestNumbered collation (s.evidence.filter fun row =>
    row.provider = provider ∧ row.kind = .notice ∧ row.localRootId = some localRootId)

end Store

/-! ## Families -/

/-- A package with its binding, as the repository loads it. -/
structure PackageState where
  id : String
  rootId : String
  localVersion : ℤ
  noticeNo : Option String
  rowVersion : ℤ
  planSnapshotId : String
  isLatest : Bool
  binding : Option BindingRow

namespace PackageState

variable (p : PackageState)

def symbol : Option String := p.binding.bind (·.symbol)
def stableExternalId : Option String := p.binding.bind (·.stableExternalId)
def sourceFields : SourceFields := (p.binding.map (·.canonicalFields)).getD .none

end PackageState

def PackageRow.state (row : PackageRow) (binding : Option BindingRow) : PackageState :=
  ⟨row.id, row.root, row.localVersion, row.maGoiThau, row.rowVersion, row.keHoachId, row.isLatest, binding⟩

structure Family where
  latestPlan : Option PlanRow
  packages : List PackageState

namespace Store

variable (collation : Collation) (s : Store)

variable (familyNo : String)

def inFamily (row : PlanRow) : Bool := upperCode row.maKeHoach = familyNo

def planRank (row : PlanRow) : ℤ ×ₗ Collated collation := toLex (row.localVersion, row.id)

/-- `ORDER BY phien_ban DESC, id DESC LIMIT 1`. -/
def latestPlanOf (rows : List PlanRow) : Option PlanRow := rows.argmax (planRank collation)

def loadPlan (planSnapshotId : Option String) : Option PlanRow :=
  let rows := s.plans.filter fun row => inFamily (upperCode familyNo) row ∧ row.archived = false
  match planSnapshotId with
  | none => latestPlanOf collation (rows.filter fun row => row.isLatest)
  | some id => rows.find? fun row => row.id = id

def packageKey (row : PackageRow) : Collated collation := row.id

def loadPackages (planId : String) : List PackageState :=
  let rows := s.packages.filter fun row => row.keHoachId = planId ∧ row.isLatest ∧ row.archived = false
  let rows := rows.mergeSort fun a b => packageKey collation a ≤ packageKey collation b
  rows.flatMap fun row =>
    match s.bindings.filter fun binding => binding.localSnapshotId = row.id with
    | [] => [row.state none]
    | bindings => bindings.map fun binding => row.state (some binding)

def loadFamily (planSnapshotId : Option String) : Family :=
  match s.loadPlan collation familyNo planSnapshotId with
  | none => ⟨none, []⟩
  | some plan => ⟨some plan, s.loadPackages collation plan.id⟩

def loadPackageSnapshot (provider : Provider) (id : String) : Option PackageState :=
  (s.packages.find? fun row => row.id = id ∧ row.archived = false).map fun row =>
    row.state (s.bindings.find? fun binding => binding.provider = provider ∧ binding.localSnapshotId = row.id)

def findLocalPlanVersion (version : ℤ) : Option PlanRow :=
  s.plans.find? fun row => inFamily (upperCode familyNo) row ∧ row.localVersion = version ∧ row.archived = false

/-- `find_local_package_version`; a version of a root in a plan is one row. -/
def findLocalPackageVersion (provider : Provider) (rootId planSnapshotId : String) (version : ℤ) : Option PackageState :=
  (s.packages.find? fun row =>
    row.root = rootId ∧ row.keHoachId = planSnapshotId ∧ row.localVersion = version
      ∧ row.archived = false).bind fun row => s.loadPackageSnapshot provider row.id

/-- The families a selection of latest packages stands in, read with `LIMIT 2`. -/
def familiesOf (selected : PackageRow → Bool) : List String :=
  (s.packages.filter fun row => selected row && row.isLatest).flatMap fun row =>
    (s.plans.filter fun plan => plan.id = row.keHoachId ∧ plan.isLatest).map fun plan => upperCode plan.maKeHoach

def only {α : Type} : List α → Option α
  | [x] => some x
  | _ => none

/-- The family of a notice: the plan it names, else the one of the target, else the one of the
packages under the number of the notice. -/
def noticeFamily (provider : Provider) (noticeNo planNo : String) (targetRootId : Option String) : String :=
  if upperCode (pyStrip planNo) ≠ "" then upperCode (pyStrip planNo)
  else
    let byTarget := (targetRootId.bind fun root =>
      only (s.familiesOf fun row => row.root = root)).getD ""
    if byTarget ≠ "" then byTarget
    else (only (s.familiesOf fun row =>
      upperCode (row.maGoiThau.getD "") = noticeNo
        ∨ s.bindings.any fun binding => binding.provider = provider ∧ binding.localRootId = row.root
            ∧ upperCode (binding.notifyNo.getD "") = noticeNo).dedup).getD ""

def resolveNoticeTarget (t : PyText) (provider : Provider) (noticeNo : String)
    (relationship : Relationship) (targetRootId : Option String) : Option PackageState :=
  let familyNo := s.noticeFamily provider noticeNo relationship.planNo targetRootId
  if familyNo = "" then none
  else
    let packages := (s.loadFamily collation familyNo none).packages
    match packages.filter fun row =>
        upperCode (textOf row.noticeNo) = noticeNo ∨ upperCode (textOf (row.binding.bind fun _ => row.noticeNo)) = noticeNo with
    | [row] => some row
    | _ :: _ :: _ => none
    | [] =>
      match targetRootId with
      | some root => only (packages.filter fun row => row.rootId = root)
      | none =>
        let idDetail := pyStrip relationship.planDetailRevisionId
        let stableId := pyStrip relationship.stablePackageId
        let symbol := t.casefold (pyStrip relationship.symbol)
        only (packages.filter fun row =>
          (idDetail ≠ "" ∧ (row.binding.map (·.idDetail)).getD "" = idDetail)
            ∨ (stableId ≠ "" ∧ row.stableExternalId.getD "" = stableId)
            ∨ (symbol ≠ "" ∧ t.casefold (textOf row.symbol) = symbol))

end Store

end Bidding.Procurement
