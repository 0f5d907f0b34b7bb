import Bidding.Procurement.Persist

/-!
# Reconciling revisions

A plan revision becomes a plan with its packages, a notice revision a version of one package. A revision whose newest
evidence has the same digest is a no-op; a changed one is a conflict, or replaces the version it became when its source is
authoritative.
-/

namespace Bidding.Procurement

open Foundations

def revisionSortKey (value : String) : ℤ ×ₗ String :=
  let text := pyStrip value
  toLex (((Scalar.str text).toInt).getD (-1), text)

def sourceRevisionVersion (provider : Provider) (value : String) : Except String (Option ℤ) :=
  if provider ≠ .muasamcong then .ok none
  else
    match takeDigits (pyStrip value).toList with
    | (digit :: digits, []) => .ok (some (digitsValue (digit :: digits)))
    | _ => .error "PROCUREMENT_REVISION_INVALID"

/-- `_id`. -/
def createdId (w : Setting) (idempotencyKey : String) (parts : List String) : String :=
  w.uuid5 (String.intercalate ":" (idempotencyKey :: parts))

/-- `revision.get("revisionDigest") or canonical_digest(revision)`. -/
def digestOf (w : Setting) (revisionDigest : Option String) (snapshot : Snapshot) : String :=
  if revisionDigest.getD "" = "" then w.canonicalDigest snapshot else revisionDigest.getD ""

/-- `_revision_number_conflict`. -/
def Store.numberConflict (w : Setting) (s : Store) (provider : Provider) (kind : EntityKind)
    (familyNo revisionNumber revisionId : String) (localRootId : Option String) : Except String Unit :=
  match s.findRevisionByNumber w.collation provider kind familyNo revisionNumber localRootId with
  | none => .ok ()
  | some row => if row.revisionUuid ≠ revisionId then .error "PROCUREMENT_SOURCE_VERSION_CONFLICT" else .ok ()

structure Decision where
  new : Bool
  localRootId : String

def uniqueMatch (rows : List PackageState) : Except String (Option PackageState) :=
  match rows with
  | [] => .ok none
  | [row] => .ok (some row)
  | _ => .error "PROCUREMENT_MATCH_AMBIGUOUS"

/-- `_match_package` without a decision: by stable id, then by notice, then by symbol. -/
def matchObserved (t : PyText) (observation : Observation) (current : List PackageState) :
    Except String (Option PackageState) := do
  let stableId := textOf observation.stablePackageId
  let noticeNo := upperCode (textOf (observation.sourceFields.noticeLink.bind (·.noticeNo)))
  let symbol := t.casefold (textOf observation.sourceFields.symbol)
  let byStable ← uniqueMatch (current.filter fun row => stableId ≠ "" ∧ textOf row.stableExternalId = stableId)
  let byNotice ← if byStable.isSome then pure byStable else uniqueMatch (current.filter fun row =>
    noticeNo ≠ "" ∧ upperCode (textOf row.noticeNo) = noticeNo)
  if byNotice.isSome then pure byNotice
  else uniqueMatch (current.filter fun row => symbol ≠ "" ∧ t.casefold (textOf row.symbol) = symbol)

def matchPackage (t : PyText) (observation : Observation) (current : List PackageState)
    (decision : Option Decision) : Except String (Option PackageState) :=
  match decision with
  | none => matchObserved t observation current
  | some decision =>
    if decision.new then .ok none
    else
      match current.filter fun row =>
          pyStrip decision.localRootId ≠ "" ∧ row.rootId = pyStrip decision.localRootId with
      | [row] => .ok (some row)
      | _ => .error "PROCUREMENT_MATCH_DECISION_INVALID"

/-! ## Plans -/

structure PlanRequest where
  provider : Provider
  revision : Revision
  idempotencyKey : String
  expectedPlanRowVersion : ℤ
  packageDecisions : List (String × Decision)

namespace PlanRequest

variable (w : Setting) (q : PlanRequest)

def familyNo : String := upperCode (pyStrip q.revision.familyNo)
def revisionId : String := pyStrip q.revision.revisionId
def digest : String := digestOf w q.revision.revisionDigest (.plan q.revision)

/-- The evidence of a plan revision. -/
def provenance (disposition : Disposition) : Provenance :=
  { provider := q.provider, kind := .plan, familyNo := q.familyNo, revisionId := q.revisionId
    revisionNumber := q.revision.revisionNumber, digest := q.digest w
    normalizedSnapshot := .plan q.revision, idempotencyKey := q.idempotencyKey
    disposition := disposition, localRootId := none, localSnapshotId := none }

/-- The version of the package of a linked notice. -/
def linkedVersion (provider : Provider) (link : Option NoticeLink) : Except String (Option ℤ) :=
  match link.bind (·.noticeVersion) with
  | none => .ok none
  | some version => sourceRevisionVersion provider version

/-- A package of the revision and its binding. -/
def createdPackage (family : Family) (planId : String) (observation : Observation) (index : ℕ) :
    Except String (CreatedPackage × CreatedBinding) := do
  let decision := (q.packageDecisions.find? fun entry => entry.1 = observation.planDetailRevisionId.getD "").map (·.2)
  let matched ← matchPackage w.text observation family.packages decision
  let action := upperCode observation.sourceAction
  let changed := matched.any fun row =>
    action = "CHANGED" ∨ (action ∉ ["UNCHANGED", "ALREADY_IMPORTED"] ∧ observation.sourceFields ≠ row.sourceFields)
  let link := observation.sourceFields.noticeLink
  let noticeVersion ← linkedVersion q.provider link
  let carried := (matched.map (·.localVersion)).getD 0
  let id := createdId w q.idempotencyKey ["package", q.revisionId, q.digest w, toString index]
  let rootId := (matched.map (·.rootId)).getD id
  let package : CreatedPackage :=
    { id := id, rootId := rootId, planSnapshotId := planId
      localVersion := noticeVersion.getD
        (if q.provider ≠ .muasamcong ∧ changed then carried + 1 else carried)
      noticeNo := link.bind (·.noticeNo)
      noticeKind := let kind := (link.bind (·.kind)).getD ""
                    if kind = "" then "UNKNOWN" else kind
      noticeRevisionId := link.bind (·.noticeRevisionId)
      noticeVersion := link.bind (·.noticeVersion)
      noticeFields := observation.sourceFields.noticeFields
      sourceFields := observation.sourceFields
      canonicalSourceFields := observation.canonicalSourceFields.getD observation.sourceFields
      supersedeSnapshotId := none, replaceSourceVersion := false, isLatest := true }
  let binding : CreatedBinding :=
    { observationKey := q.revisionId ++ ":" ++ observation.planDetailRevisionId.getD "None"
      familyNo := q.familyNo, planRevisionId := q.revisionId
      idDetail := observation.planDetailRevisionId
      stableExternalId := observation.stablePackageId
      symbol := observation.sourceFields.symbol, noticeNo := link.bind (·.noticeNo)
      localRootId := rootId, localSnapshotId := id
      canonicalFields := package.canonicalSourceFields }
  pure (package, binding)

variable (s : Store)

variable (observed : Option EvidenceRow)

/-- The family a revision is applied to: the one of the version it replaces, or the current one. -/
def baseFamily : Except String Family :=
  match observed.bind (·.localSnapshotId) with
  | none => .ok (s.loadFamily w.collation q.familyNo none)
  | some id =>
    let family := s.loadFamily w.collation q.familyNo (some id)
    if family.latestPlan.isNone then .error "PROCUREMENT_SOURCE_VERSION_CONFLICT" else .ok family

/-- No applied revision of the family has a greater number. -/
def isLatestSource : Bool :=
  (s.latestAppliedRevision w.collation q.provider q.familyNo).all fun number =>
    revisionSortKey number ≤ revisionSortKey q.revision.revisionNumber

/-- The row of the plan a revision becomes; `observed` is the evidence it resynchronizes. -/
def plannedRow (family : Family) (sourceVersion : Option ℤ) : Except String CreatedPlan :=
  let id := createdId w q.idempotencyKey ["plan", q.revisionId, q.digest w]
  match family.latestPlan with
  | none =>
    if observed.isSome then .error "AttributeError"
    else
      .ok { id := id, rootId := id, familyNo := q.familyNo, localVersion := sourceVersion.getD 0
            replaceSourceVersion := false, isLatest := q.isLatestSource w s }
  | some plan =>
    .ok { id := id, rootId := plan.root, familyNo := q.familyNo
          localVersion := sourceVersion.getD (plan.localVersion + 1)
          replaceSourceVersion := observed.isSome
          isLatest := if observed.isSome then plan.isLatest else q.isLatestSource w s }

def createdPlan (family : Family) : Except String CreatedPlan := do
  let sourceVersion ← sourceRevisionVersion q.provider q.revision.revisionNumber
  if observed.isNone ∧ (sourceVersion.bind (s.findLocalPlanVersion q.familyNo)).isSome then
    .error "PROCUREMENT_SOURCE_VERSION_CONFLICT"
  else q.plannedRow w s observed family sourceVersion

def applied (s : Store) (observed : Option EvidenceRow) (family : Family) : Except String Result := do
  let plan ← q.createdPlan w s observed family
  let created ← (q.revision.packages.zipIdx).mapM fun entry => q.createdPackage w family plan.id entry.1 entry.2
  pure { operation := .applied, createdPlans := [plan], createdPackages := created.map (·.1)
         bindings := created.map (·.2)
         provenance := { q.provenance w .applied with
           localRootId := some plan.rootId, localSnapshotId := some plan.id } }

def onlyRecorded : Bool :=
  q.provider ≠ .muasamcong ∧ observed.isNone ∧ (s.latestAppliedRevision w.collation q.provider q.familyNo).any fun number =>
        revisionSortKey q.revision.revisionNumber < revisionSortKey number

def result : Except String Result :=
  let current := s.loadFamily w.collation q.familyNo none
  if current.latestPlan.any fun plan => plan.rowVersion ≠ q.expectedPlanRowVersion then
    .error "PROCUREMENT_PREVIEW_STALE"
  else do
    s.numberConflict w q.provider .plan q.familyNo q.revision.revisionNumber q.revisionId none
    let family ← q.baseFamily w s observed
    if q.onlyRecorded w s observed then
      .ok { operation := .provenanceOnly, createdPlans := [], createdPackages := [], bindings := []
            provenance := q.provenance w .observedNotApplied }
    else q.applied w s observed family

end PlanRequest

/-! ## Notices -/

/-- A notice revision to be reconciled. -/
structure NoticeRequest where
  provider : Provider
  notice : Notice
  idempotencyKey : String
  expectedPackageRowVersion : ℤ
  targetPackageRootId : Option String

/-- `_NOTICE_MATERIAL_FIELDS`, without the number of the notice. -/
def noticeMaterialFields : List String :=
  ["kind", "status", "statusForNotify", "publishedAt", "bidClosingAt", "bidOpeningAt",
    "actualOpeningAt", "financialActualOpeningAt", "bidGuaranteeVnd", "technicalWeight",
    "approvalDecisionNo", "approvalDecisionDate"]

/-- `record.get(key)`. -/
def valueAt (record : Record) (key : String) : Value := (record.get? key).getD .null

/-- `_notice_material_snapshot`. -/
def noticeMaterial (noticeNo : Value) (fields : Record) : List (String × Value) :=
  ("noticeNo", noticeNo) :: noticeMaterialFields.map fun key => (key, valueAt fields key)

def Snapshot.material : Snapshot → List (String × Value)
  | plan revision => noticeMaterial .null revision.others
  | notice sent => noticeMaterial (.str sent.noticeNo) sent.fields
  | linked _ _ => noticeMaterial .null .empty

def packageMaterialFields : List String :=
  ["status", "statusForNotify", "publishedAt", "bidClosingAt", "bidOpeningAt", "actualOpeningAt",
    "financialActualOpeningAt", "bidGuaranteeVnd", "approvalDecisionNo", "approvalDecisionDate",
    "technicalWeight", "field", "selectionForm", "selectionMode", "contractType", "onlineMode",
    "domesticOrInternational", "priceVnd", "capitalDetail", "executionPeriod"]

def nonEmpty (value : Option String) : Option String := value.filter fun text => text ≠ ""

/-- `_package_notice_material_snapshot`. -/
def PackageState.material (p : PackageState) : List (String × Value) :=
  let link := p.sourceFields.noticeLink
  let noticeNo := (nonEmpty p.noticeNo).or (link.bind (·.noticeNo))
  let kind := (nonEmpty (link.bind (·.kind))).getD "UNKNOWN"
  ("noticeNo", (noticeNo.map Value.str).getD .null) :: ("kind", .str kind) :: packageMaterialFields.map fun key =>
      (key, if valueAt p.sourceFields.noticeFields key = .null then valueAt p.sourceFields.others key
        else valueAt p.sourceFields.noticeFields key)

/-- The fields a notice carries over to its package. -/
def carriedFields : List String :=
  ["field", "selectionForm", "selectionMode", "contractType", "onlineMode",
    "domesticOrInternational", "priceVnd", "capitalDetail", "executionPeriod", "bidGuaranteeVnd",
    "approvalDecisionNo", "approvalDecisionDate", "actualOpeningAt", "financialActualOpeningAt", "technicalWeight"]

/-- The fields of a notice its package keeps as they are. -/
def scheduleFields : List String :=
  ["status", "publishedAt", "bidClosingAt", "bidOpeningAt", "actualOpeningAt", "financialActualOpeningAt", "publicUrl"]

namespace NoticeRequest

variable (w : Setting) (q : NoticeRequest)

def noticeNo : String := upperCode (pyStrip q.notice.noticeNo)
def revisionId : String := pyStrip q.notice.revisionId
def revisionNumber : String := pyStrip q.notice.revisionNumber
def digest : String := digestOf w q.notice.revisionDigest (.notice q.notice)

def kind : String :=
  match valueAt q.notice.fields "kind" with
  | .str text => if text = "" then "UNKNOWN" else upperCode text
  | _ => "UNKNOWN"

/-- The evidence of a notice revision, for the package it is about. -/
def provenance (disposition : Disposition) (target : PackageState) (localSnapshotId : String) : Provenance :=
  { provider := q.provider, kind := .notice, familyNo := q.noticeNo, revisionId := q.revisionId
    revisionNumber := q.revisionNumber, digest := q.digest w
    normalizedSnapshot := .notice q.notice, idempotencyKey := q.idempotencyKey
    disposition := disposition, localRootId := some target.rootId
    localSnapshotId := some localSnapshotId }

def sourceFields (target : PackageState) : SourceFields :=
  let carried := carriedFields.foldl (fun others key =>
    let value := valueAt q.notice.fields key
    if key = "technicalWeight" ∧ q.notice.fields.contains key then others.set key value
    else if value = .null ∨ value = .str "" then others
    else others.set key value) target.sourceFields.others
  let schedule := scheduleFields.foldl (fun fields key =>
    let value := valueAt q.notice.fields key
    if value = .null then fields else fields.set key value) Dict.empty
  { target.sourceFields with
    noticeLink := some ⟨some q.noticeNo, some q.kind, some q.revisionId, some q.revisionNumber⟩
    noticeFields := schedule
    others := carried }

variable (s : Store)

variable (observed : Option EvidenceRow)

/-- The package a revision is applied to, and whether it is a placeholder of the same version. -/
def target (current : PackageState) (sourceVersion : Option ℤ) : Except String (PackageState × Bool) :=
  match observed with
  | none =>
    match sourceVersion.bind (s.findLocalPackageVersion q.provider current.rootId current.planSnapshotId) with
    | none => .ok (current, false)
    | some placeholder =>
      if placeholder.binding.isNone then .error "PROCUREMENT_SOURCE_VERSION_CONFLICT"
      else .ok (placeholder, true)
  | some evidence =>
    match evidence.localSnapshotId with
    | none => .ok (current, false)
    | some id =>
      match s.loadPackageSnapshot q.provider id with
      | none => .error "PROCUREMENT_SOURCE_VERSION_CONFLICT"
      | some snapshot => .ok (snapshot, false)

variable (target : PackageState)

/-- The version of the package a revision becomes. -/
def createdPackage (placeholder : Bool) (sourceVersion : Option ℤ) : CreatedPackage :=
  let previous := s.latestNoticeRevisionForPackage w.collation q.provider target.rootId
  let latestSource := previous.all fun row => revisionSortKey row.revisionNo ≤ revisionSortKey q.revisionNumber
  let replace := observed.isSome || placeholder
  let fields := q.sourceFields target
  { id := createdId w q.idempotencyKey ["notice", q.revisionId, target.id]
    rootId := target.rootId, planSnapshotId := target.planSnapshotId
    localVersion := sourceVersion.getD (target.localVersion + 1)
    noticeNo := some q.noticeNo, noticeKind := q.kind, noticeRevisionId := some q.revisionId
    noticeVersion := some q.revisionNumber, noticeFields := fields.noticeFields
    sourceFields := fields, canonicalSourceFields := fields
    supersedeSnapshotId := if replace || latestSource then some target.id else none
    replaceSourceVersion := replace
    isLatest := if observed.isSome then target.isLatest else latestSource }

/-- The binding the new version inherits. -/
def inheritedBinding (package : CreatedPackage) : List CreatedBinding :=
  target.binding.toList.map fun prior =>
    { observationKey := prior.planRevisionUuid ++ ":" ++ prior.idDetail
      familyNo := prior.familyKey, planRevisionId := prior.planRevisionUuid
      idDetail := some prior.idDetail, stableExternalId := prior.stableExternalId
      symbol := prior.symbol, noticeNo := target.noticeNo, localRootId := package.rootId
      localSnapshotId := package.id, canonicalFields := package.canonicalSourceFields }

/-- A revision that changes something of the package. -/
def isMaterial : Bool :=
  observed.isSome ||
    match s.latestNoticeRevisionForPackage w.collation q.provider target.rootId with
    | none => target.material ≠ noticeMaterial (.str q.noticeNo) q.notice.fields
    | some previous => previous.snapshot.material ≠ noticeMaterial (.str q.noticeNo) q.notice.fields

/-- What comes of a revision, once its package is known. -/
def outcome (placeholder : Bool) (sourceVersion : Option ℤ) : Result :=
  if q.isMaterial w s observed target then
    let package := q.createdPackage w s observed target placeholder sourceVersion
    { operation := .applied, createdPlans := [], createdPackages := [package]
      bindings := inheritedBinding target package
      provenance := q.provenance w .applied target package.id }
  else
    { operation := .provenanceOnly, createdPlans := [], createdPackages := []
      bindings := [], provenance := q.provenance w .observedNotApplied target target.id }

def result : Except String Result :=
  match s.resolveNoticeTarget w.collation w.text q.provider q.noticeNo q.notice.relationship q.targetPackageRootId with
  | none => .error "PROCUREMENT_NOTICE_PACKAGE_UNRESOLVED"
  | some current =>
    if current.rowVersion ≠ q.expectedPackageRowVersion then .error "PROCUREMENT_PREVIEW_STALE"
    else do
      s.numberConflict w q.provider .notice q.noticeNo q.revisionNumber q.revisionId (some current.rootId)
      let sourceVersion ← sourceRevisionVersion q.provider q.revisionNumber
      let target ← q.target s observed current sourceVersion
      .ok (q.outcome w s observed target.1 target.2 sourceVersion)

end NoticeRequest

inductive Reconciliation where
  | plan (request : PlanRequest)
  | notice (request : NoticeRequest)

namespace Reconciliation

variable (w : Setting)

def provider : Reconciliation → Provider
  | plan q => q.provider
  | notice q => q.provider

def kind : Reconciliation → EntityKind
  | plan _ => .plan
  | notice _ => .notice

def revisionId : Reconciliation → String
  | plan q => q.revisionId
  | notice q => q.revisionId

def digest : Reconciliation → String
  | plan q => q.digest w
  | notice q => q.digest w

def idempotencyKey : Reconciliation → String
  | plan q => q.idempotencyKey
  | notice q => q.idempotencyKey

/-- The revision names itself and its family, and the request has a key. -/
def named : Reconciliation → Bool
  | plan q => q.familyNo ≠ "" ∧ q.revisionId ≠ "" ∧ q.idempotencyKey ≠ ""
  | notice q => q.noticeNo ≠ "" ∧ q.revisionId ≠ "" ∧ q.revisionNumber ≠ "" ∧ q.idempotencyKey ≠ ""

def result : Reconciliation → Store → Option EvidenceRow → Except String Result
  | plan q => q.result w
  | notice q => q.result w

def noop (observed : EvidenceRow) : Result :=
  { operation := .noop, createdPlans := [], createdPackages := [], bindings := []
    provenance :=
      { provider := observed.provider, kind := observed.kind, familyNo := observed.familyKey
        revisionId := observed.revisionUuid, revisionNumber := observed.revisionNo
        digest := observed.digest, normalizedSnapshot := observed.snapshot
        idempotencyKey := observed.idempotencyKey, disposition := observed.disposition
        localRootId := observed.localRootId, localSnapshotId := observed.localSnapshotId } }

/-- The rest of a reconciliation, once the observed evidence is known not to be the same. -/
def write (m : Moment) (s : Store) (r : Reconciliation) (observed : Option EvidenceRow) : Except String (Result × Store) := do
  let result ← r.result w s observed
  let s' ← s.persistRevision w m result
  pure (result, s')

/-- `reconcile_revision` of both reconcilers. -/
def reconcile (m : Moment) (s : Store) (r : Reconciliation) : Except String (Result × Store) :=
  if r.named = false then .error "PROCUREMENT_REVISION_INVALID"
  else
    match s.findRevision w.collation r.provider r.kind r.revisionId with
    | none => r.write w m s none
    | some observed =>
      if observed.digest = r.digest w then .ok (noop observed, s)
      else if r.provider ≠ .muasamcong then .error "PROCUREMENT_REVISION_CONFLICT"
      else r.write w m s (some observed)

end Reconciliation

def Store.step (w : Setting) (s : Store) (event : Moment × Reconciliation) : Store :=
  match event.2.reconcile w event.1 s with
  | .ok (_, s') => s'
  | .error _ => s

def Store.after (w : Setting) (history : List (Moment × Reconciliation)) : Store :=
  history.foldl (Store.step w) Store.empty

end Bidding.Procurement
