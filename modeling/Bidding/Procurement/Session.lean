import Bidding.Sync.Text

/-!
# Import sessions

The manifest of source revisions with its cursor, the canonical bundle with the decisions bound to it, and the operation
that enriches the bundle in the background. A transaction is one step; one that is refused leaves everything as it was.
-/

namespace Bidding.Procurement

open Foundations

inductive RevisionKey where
  | numeric (n : ℕ)
  | text (s : String)
  deriving DecidableEq

def RevisionKey.le : RevisionKey → RevisionKey → Bool
  | numeric n, numeric m => n ≤ m
  | numeric _, text _ => true
  | text _, numeric _ => false
  | text s, text t => s ≤ t

def revisionNumberKey (value : String) : RevisionKey :=
  match takeDigits (pyStrip value).toList with
  | (digit :: digits, []) => .numeric (digitsValue (digit :: digits))
  | _ => .text (pyStrip value)

def revisionNumbersEqual (left right : String) : Bool :=
  revisionNumberKey left = revisionNumberKey right

/-- The plan row a revision was committed as. -/
structure PlanToken where
  id : String
  rootId : String
  rowVersion : ℤ
  localVersion : ℤ
  sourceRevisionNumber : String
  deriving DecidableEq

structure ManifestRevision where
  revisionId : String
  revisionNumber : String
  committed : Bool := false
  committedPlan : Option PlanToken := none

structure CanonicalRevision where
  revisionId : String
  revisionNumber : String
  revisionDigest : String

structure DecisionAuthority where
  status : String
  decisionsDigest : String
  investorId : String
  resolvedRevisions : List CanonicalRevision

/-- How far a bundle is enriched; a bundle some of whose notices failed is `PARTIAL`. -/
inductive EnrichmentStatus where
  | pending
  | incomplete
  | completed
  deriving DecidableEq

structure Bundle where
  revisions : List CanonicalRevision
  enrichmentStatus : Option EnrichmentStatus
  decisionAuthority : Option DecisionAuthority

/-- The states of a session. -/
inductive SessionStatus where
  | ready
  | editingRevision
  | waitingNextConfirmation
  | completed
  | cancelled
  | failed
  deriving DecidableEq

/-- A row of `procurement_import_session`. -/
structure Session where
  id : String
  userId : String
  workspaceLease : String
  provider : String
  kind : String
  familyNo : String
  bundleDigest : String
  revisions : List ManifestRevision
  canonicalBundle : Bundle
  currentIndex : ℕ
  status : SessionStatus
  expiresAt : ℕ

/-- The states of an operation, among them `PARTIAL`. -/
inductive OperationStatus where
  | pending
  | running
  | incomplete
  | completed
  | failed
  deriving DecidableEq

/-- The row of `procurement_import_operation` that enriches the session. -/
structure Operation where
  status : OperationStatus
  nextRevisionIndex : ℕ
  updatedAt : ℕ

/-! ## Mutations -/

/-- The `sourceRevision` of a record. -/
structure Source where
  sessionId : String
  revisionNumber : String
  provider : String
  familyNo : String
  workspaceLease : String
  deriving DecidableEq

structure SourceRecord where
  id : String
  source : Source

structure Payload where
  kehoach : List SourceRecord
  goithau : List SourceRecord

structure Context where
  source : Source
  plans : List SourceRecord
  packages : List SourceRecord

def sessionRecords (payload : Payload) : Except String (Option Context) :=
  let plans := payload.kehoach.filter fun row => row.source.sessionId ≠ ""
  let packages := payload.goithau.filter fun row => row.source.sessionId ≠ ""
  match plans ++ packages with
  | [] => .ok none
  | first :: rest =>
    if rest.all fun row => row.source = first.source then .ok (some ⟨first.source, plans, packages⟩)
    else .error "PROCUREMENT_SOURCE_VERSION_CONFLICT"

def planDraftRevisionPayloads (payload : Payload) : Except String (List Payload) :=
  let plans := payload.kehoach.filter fun row => row.source.sessionId ≠ ""
  let packages := payload.goithau.filter fun row => row.source.sessionId ≠ ""
  let records := plans ++ packages
  match records with
  | [] => .ok []
  | first :: rest =>
    if rest.all fun row => { row.source with revisionNumber := first.source.revisionNumber } = first.source then
      if records.any fun row => row.source.revisionNumber = "" then
        .error "PROCUREMENT_SOURCE_VERSION_CONFLICT"
      else
        let numbers := ((records.map fun row => row.source.revisionNumber).dedup).mergeSort
          fun a b => (revisionNumberKey a).le (revisionNumberKey b)
        .ok (numbers.map fun number =>
          { kehoach := plans.filter fun row => revisionNumbersEqual row.source.revisionNumber number
            goithau := packages.filter fun row => revisionNumbersEqual row.source.revisionNumber number })
    else .error "PROCUREMENT_SOURCE_VERSION_CONFLICT"

/-- A row of `ke_hoach_lcnt`; `root` is `COALESCE(NULLIF(id_goc, ''), id)` and `localVersion` the
number of `phien_ban`. -/
structure PlanRow where
  id : String
  root : String
  maKeHoach : String
  rowVersion : ℤ
  localVersion : ℤ
  isLatest : Bool
  archived : Bool

def PlanRow.token (row : PlanRow) (number : String) : PlanToken :=
  ⟨row.id, row.root, row.rowVersion, row.localVersion, number⟩

/-- What a transaction knows beside the session: the user, the time, the plan rows as it has written
them, `upper`, and what the checks that only refuse have decided about the records of a revision. -/
structure Commit where
  userId : String
  now : ℕ
  plans : List PlanRow
  upper : String → String
  recordsTrusted : CanonicalRevision → Context → Bool
  predecessorValid : Session → Context → Bool

inductive Event where
  /-- a revision of the manifest was committed with a plan token, by records, from plan rows -/
  | committed (index : ℕ) (number : String) (plan : Option PlanToken) (context : Context) (plans : List PlanRow)
  | cancelled

namespace Session

variable (s : Session)

/-- `_validate_session_authority`. -/
def validateAuthority (context : Context) : Except String Unit :=
  match s.revisions[s.currentIndex]? with
  | none => .error "PROCUREMENT_SOURCE_VERSION_CONFLICT"
  | some active =>
    if (s.status ≠ .ready ∧ s.status ≠ .waitingNextConfirmation)
        ∨ ¬ revisionNumbersEqual active.revisionNumber context.source.revisionNumber ∨ active.committed
        ∨ s.provider ≠ context.source.provider ∨ s.familyNo ≠ context.source.familyNo
        ∨ s.workspaceLease ≠ context.source.workspaceLease then
      .error "PROCUREMENT_SOURCE_VERSION_CONFLICT"
    else .ok ()

variable (commit : Commit)

/-- The `get_for_commit` of a session, and its time to live. -/
def openForCommit (sessionId : String) : Except String Unit :=
  if s.id ≠ sessionId ∨ s.userId ≠ commit.userId ∨ s.expiresAt ≤ commit.now then
    .error "PROCUREMENT_SESSION_EXPIRED"
  else .ok ()

variable (context : Context)

/-- The canonical revision of a number, with trusted records. -/
def trustedRevision : Except String CanonicalRevision :=
  match s.canonicalBundle.revisions.find? fun row =>
      revisionNumbersEqual row.revisionNumber context.source.revisionNumber with
  | none => .error "PROCUREMENT_REVISION_INVALID"
  | some revision =>
    if commit.recordsTrusted revision context then .ok revision
    else .error "PROCUREMENT_SOURCE_VERSION_CONFLICT"

def loadTrustedRevision : Except String CanonicalRevision := do
  s.openForCommit commit context.source.sessionId
  s.validateAuthority context
  s.trustedRevision commit context

def loadCommittedPlanToken (planId number : String) (allowHistorical : Bool) : Except String PlanToken :=
  match commit.plans.find? fun row => row.id = planId
      && commit.upper row.maKeHoach = commit.upper s.familyNo && !row.archived && (allowHistorical || row.isLatest) with
  | none => .error "PROCUREMENT_SOURCE_VERSION_CONFLICT"
  | some row => .ok (row.token number)

/-- A token `mark_revision_committed` accepts. -/
def acceptsToken (number : String) (plan : PlanToken) : Bool :=
  plan.id ≠ "" && plan.rootId ≠ "" && plan.rowVersion ≥ 1 && plan.localVersion ≥ 0 && plan.sourceRevisionNumber = number

/-- `mark_revision_committed`; the flag tells whether the revision was committed just now. -/
def markRevisionCommitted (number : String) (plan : Option PlanToken) : Except String (Session × Bool) :=
  match s.revisions.findIdx? fun revision => revision.revisionNumber = number with
  | none => .error "PROCUREMENT_REVISION_INVALID"
  | some index =>
    if ¬ plan.all (acceptsToken number) then .error "PROCUREMENT_SOURCE_VERSION_CONFLICT"
    else match s.revisions[index]? with
      | none => .error "PROCUREMENT_REVISION_INVALID"
      | some revision =>
        if revision.committed then
          if (plan.isSome ∧ revision.committedPlan ≠ plan) ∨ s.currentIndex ≤ index then
            .error "PROCUREMENT_SOURCE_VERSION_CONFLICT"
          else .ok (s, false)
        else if index ≠ s.currentIndex then .error "PROCUREMENT_SOURCE_VERSION_CONFLICT"
        else .ok ({ s with
          revisions := s.revisions.set index
            { revision with committed := true, committedPlan := plan.or revision.committedPlan }
          currentIndex := index + 1
          status := if s.revisions.length ≤ index + 1 then .completed else .waitingNextConfirmation },
          true)

/-- The token of the last plan of a context; none where the context has packages alone. -/
def committedPlan (allowHistorical : Bool) : Except String (Option PlanToken) :=
  match context.plans.getLast? with
  | none => .ok none
  | some record =>
    match s.loadCommittedPlanToken commit record.id context.source.revisionNumber allowHistorical with
    | .error e => .error e
    | .ok token => .ok (some token)

/-- `persist_import_session_provenance` of a context. -/
def persistProvenance (allowHistorical : Bool) : Except String (Session × List Event) := do
  let _ ← s.loadTrustedRevision commit context
  let plan ← s.committedPlan commit context allowHistorical
  let marked ← s.markRevisionCommitted context.source.revisionNumber plan
  pure (marked.1, if marked.2 then
      [.committed s.currentIndex context.source.revisionNumber plan context commit.plans]
    else [])

/-- `validate_import_session_mutation` and `persist_import_session_provenance` of one mutation. -/
def commitRevision (payload : Payload) : Except String (Session × List Event) := do
  match ← sessionRecords payload with
  | none => pure (s, [])
  | some context =>
    let _ ← s.loadTrustedRevision commit context
    if commit.predecessorValid s context then s.persistProvenance commit context false
    else .error "PROCUREMENT_SOURCE_VERSION_CONFLICT"

/-- The contexts of a plan draft, of which each names the session. -/
def draftContexts (payload : Payload) : Except String (List Context) := do
  let payloads ← planDraftRevisionPayloads payload
  let contexts ← payloads.mapM sessionRecords
  pure contexts.reduceOption

/-- `validate_plan_draft_import_mutation`. -/
def validatePlanDraft (contexts : List Context) : Except String Unit := do
  match contexts with
  | [] => pure ()
  | first :: _ =>
    s.openForCommit commit first.source.sessionId
    let expected := (s.revisions.drop s.currentIndex).map ManifestRevision.revisionNumber
    let provided := contexts.map fun context => context.source.revisionNumber
    if (s.status ≠ .ready ∧ s.status ≠ .waitingNextConfirmation)
        ∨ contexts.any (fun context => context.source.sessionId ≠ first.source.sessionId
          || s.provider ≠ context.source.provider || s.familyNo ≠ context.source.familyNo
          || s.workspaceLease ≠ context.source.workspaceLease)
        ∨ expected = [] ∨ provided.length ≠ expected.length
        ∨ (provided.zip expected).any (fun e => ¬ revisionNumbersEqual e.1 e.2) then
      .error "PROCUREMENT_SOURCE_VERSION_CONFLICT"
    else contexts.forM fun context => do
      let _ ← s.trustedRevision commit context

/-- The revisions of a draft one after the other; the latest event first. -/
def persistAll (commit : Commit) : List Context → Session → Except String (Session × List Event)
  | [], s => pure (s, [])
  | context :: rest, s => do
    let first ← s.persistProvenance commit context true
    let others ← persistAll commit rest first.1
    pure (others.1, others.2 ++ first.2)

def commitDraft (payload : Payload) : Except String (Session × List Event) := do
  let contexts ← draftContexts payload
  s.validatePlanDraft commit contexts
  persistAll commit contexts s

end Session

/-! ## Transactions -/

/-- The session, the operation that enriches it, whether the request that made the session is to
start one, and what happened, the latest first. -/
structure World where
  session : Option Session
  operation : Option Operation
  enrichmentContext : Bool
  history : List Event

structure Refreshed where
  revisions : List CanonicalRevision
  failedNotices : Bool
  digest : String

/-- The transactions on a session. -/
inductive Transaction where
  | commitRevision (commit : Commit) (payload : Payload)
  | commitDraft (commit : Commit) (payload : Payload)
  | bindDecisions (userId workspaceLease : String) (now : ℕ) (bundleDigest : String)
      (resolve : Bundle → List String → Except String DecisionAuthority)
  | cancel (userId workspaceLease : String)
  | cleanup (now : ℕ)
  | createOperation (now : ℕ)
  | claim (now staleAfter : ℕ)
  | recordProgress (lease cursor now : ℕ)
  | finishEnrichment (userId workspaceLease : String) (refreshed : Refreshed) (lease cursor now : ℕ)
  | failEnrichment (lease : Option ℕ) (now : ℕ)

namespace World

variable (w : World)

variable (userId workspaceLease : String)

def getScoped : Except String Session :=
  match w.session with
  | none => .error "PROCUREMENT_SESSION_EXPIRED"
  | some s =>
    if s.userId ≠ userId ∨ s.workspaceLease ≠ workspaceLease then
      .error "PROCUREMENT_SESSION_SCOPE_INVALID"
    else .ok s

def commit (f : Session → Except String (Session × List Event)) : Except String World :=
  match w.session with
  | none => .error "PROCUREMENT_SESSION_EXPIRED"
  | some s => do
    let done ← f s
    pure { w with session := some done.1, history := done.2 ++ w.history }

/-- `bind_decision_authority`, on the locked row. -/
def bindAuthority (s : Session) (bundleDigest : String) (authority : DecisionAuthority) : Except String World :=
  let bundle : Bundle := { s.canonicalBundle with decisionAuthority := some authority }
  let bind : Except String World :=
    if s.currentIndex ≠ 0 ∨ (s.status ≠ .ready ∧ s.status ≠ .editingRevision) then
      .error "PROCUREMENT_DECISIONS_LOCKED"
    else .ok { w with session := some { s with canonicalBundle := bundle } }
  if s.bundleDigest ≠ bundleDigest then .error "PROCUREMENT_PREVIEW_STALE"
  else match s.canonicalBundle.decisionAuthority with
    | none => bind
    | some existing =>
      if existing.status = "BOUND" then
        if existing.decisionsDigest ≠ authority.decisionsDigest then
          .error "PROCUREMENT_DECISIONS_LOCKED"
        else .ok w
      else bind

/-- `bind_plan_decisions`. -/
def bindDecisions (now : ℕ) (bundleDigest : String)
    (resolve : Bundle → List String → Except String DecisionAuthority) : Except String World := do
  let s ← w.getScoped userId workspaceLease
  if s.expiresAt ≤ now then .error "PROCUREMENT_SESSION_EXPIRED"
  else if s.kind ≠ "PLAN" then .error "PROCUREMENT_REVISION_INVALID"
  else if bundleDigest ≠ s.bundleDigest then .error "PROCUREMENT_PREVIEW_STALE"
  else match s.canonicalBundle.enrichmentStatus.getD .completed with
    | .pending => .error "PROCUREMENT_ENRICHMENT_PENDING"
    | .incomplete => .error "PROCUREMENT_ENRICHMENT_INCOMPLETE"
    | .completed =>
      let authority ← resolve s.canonicalBundle (s.revisions.map ManifestRevision.revisionId)
      w.bindAuthority s bundleDigest authority

/-- `cancel_remaining`. -/
def cancel : Except String World := do
  let s ← w.getScoped userId workspaceLease
  if s.status = .ready ∨ s.status = .editingRevision ∨ s.status = .waitingNextConfirmation then
    pure { w with session := some { s with status := .cancelled }, history := .cancelled :: w.history }
  else pure w

/-- `cleanup_expired`. -/
def cleanup (now : ℕ) : World :=
  { w with session := w.session.filter fun s => now < s.expiresAt }

/-- `_start_plan_enrichment` and `create_operation`. -/
def createOperation (now : ℕ) : World :=
  if w.enrichmentContext then { w with operation := w.operation.or (some ⟨.pending, 0, now⟩) } else w

/-- `claim_background_operation`. -/
def claim (now staleAfter : ℕ) : World :=
  { w with operation := w.operation.map fun op =>
      if op.status = .pending ∨ (op.status = .running ∧ op.updatedAt + staleAfter < now) then
        { op with status := .running, updatedAt := now }
      else op }

/-- The `UPDATE` of an operation by the worker that holds a lease. -/
def updateOperation (status : OperationStatus) (lease cursor now : ℕ) : Except String World :=
  match w.operation with
  | none => .error "PROCUREMENT_ENRICHMENT_LEASE_LOST"
  | some op =>
    if op.nextRevisionIndex ≤ cursor ∧ op.status = .running ∧ op.updatedAt = lease then
      .ok { w with operation := some ⟨status, cursor, now⟩ }
    else .error "PROCUREMENT_ENRICHMENT_LEASE_LOST"

/-- `update_canonical_bundle` with a bundle the preparer has made anew. -/
def updateCanonicalBundle (refreshed : Refreshed) : World × Bool :=
  match w.session with
  | none => (w, false)
  | some s =>
    if s.userId = userId ∧ s.workspaceLease = workspaceLease ∧ s.status ≠ .cancelled ∧ s.status ≠ .failed then
      let bundle : Bundle :=
        { revisions := refreshed.revisions
          enrichmentStatus := some (if refreshed.failedNotices then .incomplete else .completed)
          decisionAuthority := none }
      let updated : Session := { s with bundleDigest := refreshed.digest, canonicalBundle := bundle }
      ({ w with session := some updated }, true)
    else (w, false)

def finishEnrichment (refreshed : Refreshed) (lease cursor now : ℕ) : Except String World :=
  let updated := w.updateCanonicalBundle userId workspaceLease refreshed
  updated.1.updateOperation
    (if !updated.2 then .failed else if refreshed.failedNotices then .incomplete else .completed) lease cursor now

/-- `_finish_enrichment_operation` of a worker that failed, before or after it had a lease. -/
def failEnrichment (lease : Option ℕ) (now : ℕ) : World :=
  { w with operation := w.operation.map fun op =>
      if lease.all fun lease => op.status = .running ∧ op.updatedAt = lease then
        { op with status := .failed, updatedAt := now }
      else op }

/-- What a transaction does, where it is not refused. -/
def attempt : Transaction → Except String World
  | .commitRevision commit payload => w.commit fun s => s.commitRevision commit payload
  | .commitDraft commit payload => w.commit fun s => s.commitDraft commit payload
  | .bindDecisions userId workspaceLease now bundleDigest resolve =>
    w.bindDecisions userId workspaceLease now bundleDigest resolve
  | .cancel userId workspaceLease => w.cancel userId workspaceLease
  | .cleanup now => .ok (w.cleanup now)
  | .createOperation now => .ok (w.createOperation now)
  | .claim now staleAfter => .ok (w.claim now staleAfter)
  | .recordProgress lease cursor now => w.updateOperation .running lease cursor now
  | .finishEnrichment userId workspaceLease refreshed lease cursor now =>
    w.finishEnrichment userId workspaceLease refreshed lease cursor now
  | .failEnrichment lease now => .ok (w.failEnrichment lease now)

def run (t : Transaction) : World :=
  match w.attempt t with
  | .ok w' => w'
  | .error _ => w

end World

/-- What a session is made from. -/
structure Prepared where
  id : String
  userId : String
  workspaceLease : String
  provider : String
  kind : String
  familyNo : String
  bundleDigest : String
  manifest : List (String × String)
  revisions : List CanonicalRevision
  /-- the linked notices are left to the background -/
  quickEnrichment : Bool
  /-- some notices are linked -/
  linked : Bool
  expiresAt : ℕ

/-- The session as `create_from_bundle` makes it, before its operation is created. -/
def Prepared.world (prepared : Prepared) : World where
  session := some
    { id := prepared.id
      userId := prepared.userId
      workspaceLease := prepared.workspaceLease
      provider := prepared.provider
      kind := prepared.kind
      familyNo := prepared.familyNo
      bundleDigest := prepared.bundleDigest
      revisions := prepared.manifest.map fun e => { revisionId := e.1, revisionNumber := e.2 }
      canonicalBundle :=
        { revisions := prepared.revisions
          enrichmentStatus := if prepared.quickEnrichment then
              some (if prepared.linked then .pending else .completed)
            else none
          decisionAuthority := none }
      currentIndex := 0
      status := .ready
      expiresAt := prepared.expiresAt }
  operation := none
  enrichmentContext := prepared.quickEnrichment && prepared.linked
  history := []

end Bidding.Procurement
