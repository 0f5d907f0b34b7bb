import Bidding.Procurement.Evidence

/-!
# Writing a reconciled revision

What one reconciliation creates, and `persist_revision`, which writes it in one transaction. The unique indexes count
archived rows too. Whether the columns nothing reads back can be written is given with the transaction.
-/

namespace Bidding.Procurement

open Foundations

/-- A plan to be inserted. -/
structure CreatedPlan where
  id : String
  rootId : String
  familyNo : String
  localVersion : ℤ
  replaceSourceVersion : Bool
  isLatest : Bool

/-- A package to be inserted. -/
structure CreatedPackage where
  id : String
  rootId : String
  planSnapshotId : String
  localVersion : ℤ
  noticeNo : Option String
  noticeKind : String
  noticeRevisionId : Option String
  noticeVersion : Option String
  noticeFields : Record
  sourceFields : SourceFields
  canonicalSourceFields : SourceFields
  supersedeSnapshotId : Option String
  replaceSourceVersion : Bool
  isLatest : Bool

/-- A binding to be inserted, with the fields of the package it is of. -/
structure CreatedBinding where
  observationKey : String
  familyNo : String
  planRevisionId : String
  idDetail : Option String
  stableExternalId : Option String
  symbol : Option String
  noticeNo : Option String
  localRootId : String
  localSnapshotId : String
  canonicalFields : SourceFields

/-- The evidence of a revision, before it is a row. -/
structure Provenance where
  provider : Provider
  kind : EntityKind
  familyNo : String
  revisionId : String
  revisionNumber : String
  digest : String
  normalizedSnapshot : Snapshot
  idempotencyKey : String
  disposition : Disposition
  localRootId : Option String
  localSnapshotId : Option String

inductive OperationName where
  | noop
  | provenanceOnly
  | applied
  deriving DecidableEq

/-- The result of a reconciliation. -/
structure Result where
  operation : OperationName
  createdPlans : List CreatedPlan
  createdPackages : List CreatedPackage
  bindings : List CreatedBinding
  provenance : Provenance

/-- What a transaction meets: the time it started at, the `created_at` of its rows, and whether the
columns and the children that are not modelled can be written. -/
structure Moment where
  now : ℕ
  restAdmitted : Bool

/-- `trim` of SQL. -/
def sqlTrim (text : String) : String := .ofList (trimBoth (· = ' ') text.toList)

def sameCode (t : PyText) (a b : String) : Bool :=
  sqlTrim a ≠ "" ∧ t.lower (sqlTrim a) = t.lower (sqlTrim b)

namespace Store

variable (w : Setting) (s : Store)

variable (row : CreatedPlan)

def replaces (plan : PlanRow) : Bool :=
  row.replaceSourceVersion ∧ inFamily row.familyNo plan ∧ plan.root = row.rootId
    ∧ plan.localVersion = row.localVersion ∧ plan.archived = false

/-- The version that is replaced is archived with its packages. -/
def archiveReplaced : Store :=
  { s with
    packages := s.packages.map fun package =>
      if package.archived = false ∧ s.plans.any fun plan => replaces row plan ∧ plan.id = package.keHoachId then
        { package with archived := true, isLatest := false, rowVersion := package.rowVersion + 1 }
      else package
    plans := s.plans.map fun plan =>
      if replaces row plan then
        { plan with archived := true, isLatest := false, rowVersion := plan.rowVersion + 1 }
      else plan }

/-- The latest plan of the family no longer is, where a new one is. -/
def retired (plan : PlanRow) : PlanRow :=
  if row.isLatest ∧ inFamily row.familyNo plan ∧ plan.isLatest then
    { plan with isLatest := false, rowVersion := plan.rowVersion + 1 }
  else plan

def retireLatest : Store := { s with plans := s.plans.map (retired row) }

def planRow : PlanRow :=
  { id := row.id, root := row.rootId, maKeHoach := row.familyNo, rowVersion := 1,
    localVersion := row.localVersion, isLatest := row.isLatest, archived := false }

def planClashes (row old : PlanRow) : Bool :=
  old.id = row.id ∨ (old.root = row.root ∧ old.localVersion = row.localVersion) ∨ (row.isLatest ∧ old.isLatest
      ∧ (old.root = row.root ∨ sameCode w.text old.maKeHoach row.maKeHoach))

def insertPlan : Except String Store :=
  let s := (s.archiveReplaced row).retireLatest row
  if s.plans.any (planClashes w (planRow row)) then .error "UniqueViolation"
  else .ok { s with plans := s.plans ++ [planRow row] }

def packageRow (row : CreatedPackage) : PackageRow :=
  { id := row.id, root := row.rootId, maGoiThau := row.noticeNo, localVersion := row.localVersion,
    isLatest := row.isLatest, archived := false, keHoachId := row.planSnapshotId, rowVersion := 1 }

variable (package : CreatedPackage)

def supersedes (row : PackageRow) : Bool :=
  package.supersedeSnapshotId = some row.id ∧ (if package.replaceSourceVersion then row.archived = false else row.isLatest)

def superseded (row : PackageRow) : PackageRow :=
  if supersedes package row then
    { row with
      archived := row.archived || package.replaceSourceVersion
      isLatest := false, rowVersion := row.rowVersion + 1 }
  else row

def supersede : Except String Store :=
  if package.supersedeSnapshotId.isNone then .ok s
  else if s.packages.any (supersedes package) then
    .ok { s with packages := s.packages.map (superseded package) }
  else .error "PROCUREMENT_PREVIEW_STALE"

def packageClashes (row old : PackageRow) : Bool :=
  old.id = row.id ∨ (old.root = row.root ∧ old.localVersion = row.localVersion ∧ old.keHoachId = row.keHoachId)
    ∨ (row.isLatest ∧ old.isLatest ∧ old.keHoachId = row.keHoachId ∧ (old.root = row.root
        ∨ sameCode w.text (old.maGoiThau.getD "") (row.maGoiThau.getD "")))

def insertPackage (row : CreatedPackage) : Except String Store :=
  if s.packages.any (packageClashes w (packageRow row)) then .error "UniqueViolation"
  else if s.plans.any fun plan => plan.id = row.planSnapshotId then
    .ok { s with packages := s.packages ++ [packageRow row] }
  else .error "ForeignKeyViolation"

def writePackage (row : CreatedPackage) : Except String Store := do
  let s ← s.supersede row
  s.insertPackage w row

/-! ## Evidence and bindings -/

def stableId (parts : List String) : String := w.uuid5 (String.intercalate ":" parts)

def evidenceClashes (row old : EvidenceRow) : Bool :=
  old.id = row.id ∨ (old.provider = row.provider ∧ old.kind = row.kind ∧ old.revisionUuid = row.revisionUuid
      ∧ old.digest = row.digest) ∨ (old.provider = row.provider ∧ old.idempotencyKey = row.idempotencyKey
      ∧ old.revisionUuid = row.revisionUuid ∧ old.digest = row.digest)

/-- Insert evidence, `ON CONFLICT DO NOTHING`. -/
def insertEvidence (row : EvidenceRow) : Store :=
  if s.evidence.any (evidenceClashes row) then s else { s with evidence := s.evidence ++ [row] }

end Store

def Provenance.row (w : Setting) (now : ℕ) (evidence : Provenance) : EvidenceRow :=
  { id := Store.stableId w [w.organizationId, evidence.provider.name, evidence.kind.name,
      evidence.revisionId, evidence.digest]
    provider := evidence.provider, kind := evidence.kind, familyKey := evidence.familyNo
    revisionUuid := evidence.revisionId, revisionNo := evidence.revisionNumber
    snapshot := evidence.normalizedSnapshot, digest := evidence.digest
    disposition := evidence.disposition, idempotencyKey := evidence.idempotencyKey
    localRootId := evidence.localRootId, localSnapshotId := evidence.localSnapshotId
    createdAt := now }

/-- The evidence of the notice a package of an imported plan is linked to. -/
def CreatedPackage.linkedNotice (w : Setting) (now : ℕ) (evidence : Provenance)
    (package : CreatedPackage) : Option EvidenceRow :=
  let noticeNo := upperCode (textOf package.noticeNo)
  let noticeRevisionId := textOf package.noticeRevisionId
  match package.noticeVersion with
  | none => none
  | some noticeVersion =>
    if noticeNo = "" ∨ noticeRevisionId = "" then none
    else
      let snapshot := Snapshot.linked
        ⟨some noticeNo, some package.noticeKind, some noticeRevisionId, some noticeVersion⟩ package.noticeFields
      some
        { id := Store.stableId w [w.organizationId, evidence.provider.name, "NOTICE",
            noticeRevisionId, w.canonicalDigest snapshot]
          provider := evidence.provider, kind := .notice, familyKey := noticeNo
          revisionUuid := noticeRevisionId, revisionNo := noticeVersion
          snapshot := snapshot, digest := w.canonicalDigest snapshot, disposition := .applied
          idempotencyKey := evidence.idempotencyKey ++ ":notice:" ++ noticeRevisionId
          localRootId := some package.rootId, localSnapshotId := some package.id
          createdAt := now }

namespace Store

variable (w : Setting) (s : Store)

def bindingClashes (row old : BindingRow) : Bool :=
  old.id = row.id ∨ (old.provider = row.provider ∧ old.planRevisionUuid = row.planRevisionUuid
    ∧ old.idDetail = row.idDetail ∧ old.localSnapshotId = row.localSnapshotId)

/-- Insert a binding, `ON CONFLICT DO NOTHING`; the detail id of a binding is not blank. -/
def insertBinding (provider : Provider) (binding : CreatedBinding) : Except String Store :=
  if sqlTrim (binding.idDetail.getD "") = "" then .error "CheckViolation"
  else
    let row : BindingRow :=
      { id := stableId w [binding.observationKey, w.organizationId, binding.localSnapshotId]
        provider := provider, familyKey := binding.familyNo
        planRevisionUuid := binding.planRevisionId, idDetail := binding.idDetail.getD ""
        stableExternalId := binding.stableExternalId, symbol := binding.symbol
        notifyNo := binding.noticeNo, localRootId := binding.localRootId
        localSnapshotId := binding.localSnapshotId, canonicalFields := binding.canonicalFields }
    .ok (if s.bindings.any (bindingClashes row) then s
      else { s with bindings := s.bindings ++ [row] })

def recordEvidence (m : Moment) (result : Result) : Store :=
  let s := s.insertEvidence (result.provenance.row w m.now)
  match result.provenance.kind with
  | .notice => s
  | .plan =>
    (result.createdPackages.filterMap (CreatedPackage.linkedNotice w m.now result.provenance)).foldl insertEvidence s

def persistRevision (m : Moment) (result : Result) : Except String Store :=
  if m.restAdmitted = false then .error "REST_REFUSED"
  else do
    let s ← result.createdPlans.foldlM (fun s row => s.insertPlan w row) s
    let s ← result.createdPackages.foldlM (fun s row => s.writePackage w row) s
    let s := s.recordEvidence w m result
    result.bindings.foldlM (fun s row => s.insertBinding w result.provenance.provider row) s

end Store

end Bidding.Procurement
