import Mathlib.Algebra.Group.Nat.Defs
import Mathlib.Data.Option.Basic
import Bidding.Foundations.Scalar

/-!
# The projection of published Word templates

The database says what is published; the legacy files and the legacy configuration are written after it. A publication
and a replacement of the assignments leave rows, which workers claim, write and finish.
-/

namespace Bidding.Documents.Projection

open Foundations

abbrev AssignmentSets := String → List String

/-- What is fixed for a scope: the name of the legacy file of a template, different for different templates, the contents of
the immutable storage by checksum, the checksum of an assignment payload, and case folding. -/
structure Scope (ι β : Type) where
  legacyAlias : ι → String
  alias_unique : Function.Injective legacyAlias
  read : String → Option β
  digest : ℕ → AssignmentSets → String
  casefold : String → String

/-- The columns of `word_template_version` that are read. -/
structure Version where
  id : String
  sha256 : String
  deriving DecidableEq

inductive Status where
  | pending | processing | completed | retry | failed
  deriving DecidableEq

inductive Target (ι : Type) where
  | publication (template : ι)
  | assignment (revision : ℕ) (sets : AssignmentSets)

/-- A row of `word_template_projection_outbox`. -/
structure Row (ι : Type) where
  id : ℕ
  target : Target ι
  desiredAlias : String
  desiredChecksum : String
  status : Status
  attemptCount : ℕ
  availableAt : ℕ
  lockedAt : Option ℕ
  lastErrorCode : Option String

/-- A worker with a row it has claimed: the revision of the configuration it has read, and whether it has
written yet. -/
structure Job (ι : Type) where
  row : Row ι
  revision : Option ℕ
  written : Bool

/-- The catalog, the rows, the legacy files by name, the legacy configuration, the clock, and the workers.
`published` and `committed` are what was published and assigned after the cutover. -/
structure World (ι κ β : Type) where
  rowVersion : ι → ℕ
  published : ι → Option Version
  revision : ℕ
  committed : Option AssignmentSets
  rows : List (Row ι)
  nextId : ℕ
  files : String → Option β
  configRevision : ℕ
  config : AssignmentSets
  clock : ℕ
  workers : κ → Option (Job ι)

/-- `_normalize_template_assignment_values(value)`: without blanks and repetitions. -/
def normalizeValues (casefold : String → String) (seen : List String) : List String → List String
  | [] => []
  | filename :: rest =>
    let safeName := pyStrip filename
    if safeName = "" ∨ casefold safeName ∈ seen then normalizeValues casefold seen rest
    else safeName :: normalizeValues casefold (casefold safeName :: seen) rest

/-- What `set_template_assignments` stores. -/
def normalizeSets (casefold : String → String) (sets : AssignmentSets) : AssignmentSets :=
  fun documentType => normalizeValues casefold [] (sets documentType)

section Rows

variable {ι κ β : Type} [DecidableEq ι]

def Target.sameKey : Target ι → Target ι → Bool
  | .publication template, .publication template' => template = template'
  | .assignment _ _, .assignment _ _ => true
  | _, _ => false

variable (w : World ι κ β)

/-- The row that `INSERT … ON CONFLICT DO NOTHING` finds in its way. -/
def World.conflicts (target : Target ι) (checksum : String) : Bool :=
  w.rows.any fun r => r.target.sameKey target && r.desiredChecksum = checksum

/-- `enqueue_projection`. -/
def World.enqueue (target : Target ι) (desiredAlias checksum : String) : World ι κ β :=
  if w.conflicts target checksum then w
  else
    let row : Row ι := ⟨w.nextId, target, desiredAlias, checksum, .pending, 0, w.clock, none, none⟩
    { w with rows := w.rows ++ [row], nextId := w.nextId + 1 }

def World.publish (s : Scope ι β) (w : World ι κ β) (template : ι) (version : Version) : World ι κ β :=
  let published := Function.update w.published template (some version)
  let rowVersion := Function.update w.rowVersion template (w.rowVersion template + 1)
  { w with published := published, rowVersion := rowVersion }.enqueue (.publication template)
    (s.legacyAlias template) version.sha256

/-- `replace_assignments_cas`. -/
def World.replaceAssignments (s : Scope ι β) (w : World ι κ β) (sets : AssignmentSets) : World ι κ β :=
  let next := w.revision + 1
  { w with revision := next, committed := some sets }.enqueue (.assignment next sets) "__assignments__" (s.digest next sets)

/-- An `UPDATE` of one row. -/
def World.updateRow (id : ℕ) (f : Row ι → Row ι) : World ι κ β :=
  { w with rows := w.rows.map fun r => if r.id = id then f r else r }

/-- The `UPDATE` of `claim_projection`. -/
def Row.claimed (r : Row ι) (now : ℕ) : Row ι :=
  { r with status := .processing, lockedAt := some now, attemptCount := r.attemptCount + 1 }

/-- `complete_projection`. -/
def Row.complete (r : Row ι) : Row ι :=
  if r.status = .processing then { r with status := .completed, lockedAt := none, lastErrorCode := none }
  else r

/-- `retry_projection`. -/
def Row.retried (r : Row ι) (errorCode : String) (delaySeconds now : ℕ) : Row ι :=
  if r.status = .processing then
    { r with
      status := if 10 ≤ r.attemptCount then .failed else .retry
      lockedAt := none
      lastErrorCode := some (.ofList (errorCode.toList.take 128))
      availableAt := now + max 1 (min 3600 delaySeconds) }
  else r

/-- `recover_stale_projections`. -/
def Row.recovered (r : Row ι) (staleSeconds now : ℕ) : Row ι :=
  if r.status = .processing ∧ r.lockedAt.any fun lockedAt => lockedAt + max 60 (min 86400 staleSeconds) < now then
    { r with
      status := .retry
      lockedAt := none
      lastErrorCode := some "STALE_LEASE_RECOVERED"
      availableAt := now }
  else r

end Rows

/-- What happens next. -/
inductive Action (ι κ : Type) where
  | publish (template : ι) (version : Version) (expectedRowVersion : ℕ)
  | replaceAssignments (sets : AssignmentSets) (expectedRevision : ℕ)
  | tick (seconds : ℕ)
  | claim (worker : κ) (id : ℕ)
  | writeFile (worker : κ)
  | readRevision (worker : κ)
  | writeConfig (worker : κ)
  | complete (worker : κ)
  | retry (worker : κ) (errorCode : String)
  | crash (worker : κ)
  | recoverStale (staleSeconds : ℕ)

section Steps

variable {ι κ β : Type} [DecidableEq ι] [DecidableEq κ]

def World.setWorker (w : World ι κ β) (worker : κ) (job : Option (Job ι)) : World ι κ β :=
  { w with workers := Function.update w.workers worker job }

/-- The file operation of `_project` for a publication. The content has been read from the storage, which
gives it only under its checksum. -/
def World.writeFile (s : Scope ι β) (w : World ι κ β) (worker : κ) (job : Job ι) : Option (World ι κ β) :=
  match job.row.target with
  | .assignment _ _ => none
  | .publication _ => (s.read job.row.desiredChecksum).map fun content =>
    { w with files := Function.update w.files job.row.desiredAlias (some content) }.setWorker worker
      (some { job with written := true })

/-- `_mutate_template_config` with the revision that was read; another one is a conflict. -/
def World.writeConfig (s : Scope ι β) (w : World ι κ β) (worker : κ) (job : Job ι) : Option (World ι κ β) :=
  match job.row.target with
  | .publication _ => none
  | .assignment _ sets =>
    if job.revision = some w.configRevision then
      let config := normalizeSets s.casefold sets
      some ({ w with config := config, configRevision := w.configRevision + 1 }.setWorker worker
        (some { job with written := true }))
    else none

/-- A row is claimed once it is available. Rows that another transaction has locked are skipped, so that
the first available row is not always the one claimed. -/
def World.claim (w : World ι κ β) (worker : κ) (id : ℕ) : Option (World ι κ β) :=
  match w.workers worker, w.rows.find? fun r => r.id = id with
  | none, some row =>
    if (row.status = .pending ∨ row.status = .retry) ∧ row.availableAt ≤ w.clock then
      some ((w.updateRow id fun r => r.claimed w.clock).setWorker worker (some ⟨row.claimed w.clock, none, false⟩))
    else none
  | _, _ => none

/-- What an action does; nothing where it cannot be taken. An error may be raised at any point of the work
on a row, and a worker may be killed at any point. -/
def World.act (s : Scope ι β) (w : World ι κ β) : Action ι κ → Option (World ι κ β)
  | .publish template version expectedRowVersion =>
    if w.rowVersion template = expectedRowVersion then some (w.publish s template version) else none
  | .replaceAssignments sets expectedRevision =>
    if w.revision = expectedRevision then some (w.replaceAssignments s sets) else none
  | .tick seconds => some { w with clock := w.clock + seconds }
  | .claim worker id => w.claim worker id
  | .writeFile worker => (w.workers worker).bind fun job => w.writeFile s worker job
  | .readRevision worker => (w.workers worker).map fun job =>
    w.setWorker worker (some { job with revision := some w.configRevision })
  | .writeConfig worker => (w.workers worker).bind fun job => w.writeConfig s worker job
  | .complete worker => (w.workers worker).bind fun job =>
    if job.written then some ((w.updateRow job.row.id fun r => r.complete).setWorker worker none) else none
  | .retry worker errorCode => (w.workers worker).map fun job =>
    let delay := min 3600 (2 ^ min job.row.attemptCount 10)
    (w.updateRow job.row.id fun r => r.retried errorCode delay w.clock).setWorker worker none
  | .crash worker => some (w.setWorker worker none)
  | .recoverStale staleSeconds => some { w with rows := w.rows.map fun r => r.recovered staleSeconds w.clock }

inductive Run (s : Scope ι β) (allowed : World ι κ β → Action ι κ → Prop) (start : World ι κ β) : World ι κ β → Prop
  | start : Run s allowed start start
  | step {w w' : World ι κ β} {a : Action ι κ} (hrun : Run s allowed start w) (hallowed : allowed w a)
      (h : w.act s a = some w') : Run s allowed start w'

end Steps

end Bidding.Documents.Projection
