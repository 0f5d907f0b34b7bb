import Mathlib.Algebra.Group.Nat.Defs
import Mathlib.Tactic.Common

/-!
# Durable document jobs

Workers claim, render and finish one job: its row, its provenance rows and its result files. Every transaction and every
file operation is one step. The number of a claim stands for the random part of the lock token.
-/

namespace Bidding.Documents

inductive Status where
  | pending | processing | retry | completed | failed
  deriving DecidableEq

/-- The columns of `document_jobs` that change. -/
structure JobRow where
  status : Status
  attemptCount : ℕ
  availableAt : ℕ
  lockedAt : Option ℕ
  lockedBy : Option ℕ
  lastErrorCode : Option String
  lastErrorMessage : Option String
  completedAt : Option ℕ
  cancelledAt : Option ℕ
  progressPhase : String
  progressCompletedItems : ℕ
  progressTotalItems : ℕ
  expiresAt : ℕ
  updatedAt : ℕ
  deriving DecidableEq

/-- An entry of `artifactProvenance` in the policy of the job. -/
structure Provenance where
  templateVersionId : String
  templateSha256 : String
  recordType : Option String
  recordId : Option String
  recordRowVersion : ℕ
  deriving DecidableEq

/-- A row of `generated_document_provenance`. -/
structure ProvenanceRow where
  source : Provenance
  artifactSha256 : String
  deriving DecidableEq

/-- `DOCUMENT_JOB_STALE_SECONDS`, `DOCUMENT_JOB_MAX_ATTEMPTS` and `DOCUMENT_JOB_RETENTION_SECONDS`. -/
structure Settings where
  staleSeconds : ℕ
  maxAttempts : ℕ
  retentionSeconds : ℕ
  stale_bounds : 60 ≤ staleSeconds ∧ staleSeconds ≤ 900
  attempts_bounds : 1 ≤ maxAttempts ∧ maxAttempts ≤ 5
  retention_bounds : 300 ≤ retentionSeconds ∧ retentionSeconds ≤ 2592000

/-- What is fixed for a job, and what the code takes from elsewhere: a digest of bytes and the entries of an
archive. -/
structure Job where
  id : String
  settings : Settings
  ownerScoped : Bool
  artifactProvenance : Option (List Provenance)
  totalItems : ℕ
  sha256 : String → String
  unzip : String → Option (List String)

inductive Result where
  | bytes (content : String)
  | value (text : String)
  deriving DecidableEq

/-- `result.json`: it names the bytes of `result.bin` by size and digest, holds a value, or an error. -/
inductive Envelope where
  | bytes (size : ℕ) (sha256 : String)
  | value (text : String)
  | error (errorType message : String)
  deriving DecidableEq

structure File (α : Type) where
  content : α
  claim : ℕ
  deriving DecidableEq

structure Files where
  json : Option (File Envelope)
  bin : Option (File String)
  deriving DecidableEq

def Job.readResult (job : Job) (files : Files) : Option Result :=
  match files.json with
  | none => none
  | some ⟨.value text, _⟩ => some (.value text)
  | some ⟨.error _ _, _⟩ => none
  | some ⟨.bytes size sha256, _⟩ =>
    match files.bin with
    | none => none
    | some ⟨content, _⟩ =>
      if content.utf8ByteSize = size && job.sha256 content = sha256 then some (.bytes content) else none

/-! ## Transactions -/

inductive ErrorKind where
  | input | authorization | worker | other
  deriving DecidableEq

structure Failure where
  kind : ErrorKind
  className : String
  message : String
  deriving DecidableEq

/-- What a worker keeps of the row it has claimed. -/
structure Claim where
  token : ℕ
  attemptCount : ℕ
  progressCompletedItems : ℕ
  progressTotalItems : ℕ
  deriving DecidableEq

section Transactions

variable (job : Job) (now : ℕ)

variable (row : JobRow)

def claimable : Bool :=
  row.attemptCount < job.settings.maxAttempts && now < row.expiresAt &&
    (((row.status = .pending || row.status = .retry) && row.availableAt ≤ now) ||
      (row.status = .processing && row.lockedAt.any fun lockedAt => lockedAt + job.settings.staleSeconds ≤ now))

/-- The `UPDATE` of `_claim_durable_document_job`. -/
def claimRow (token : ℕ) (row : JobRow) : JobRow :=
  { row with
    status := .processing
    attemptCount := row.attemptCount + 1
    lockedAt := some now
    lockedBy := some token
    updatedAt := now }

/-- The claim of a row, `claimed` in the code. -/
def JobRow.claim (token : ℕ) : Claim :=
  ⟨token, row.attemptCount + 1, row.progressCompletedItems, row.progressTotalItems⟩

/-- An `UPDATE` guarded by `status = 'processing' AND locked_by = ?`. -/
def guarded (claim : Claim) (f : JobRow → JobRow) : Option JobRow → Option JobRow
  | none => none
  | some row => if row.status = .processing ∧ row.lockedBy = some claim.token then some (f row) else some row

/-- `_update_document_job_progress`. -/
def progressRow (phase : String) (completedItems totalItems : ℕ) (row : JobRow) : JobRow :=
  { row with
    progressPhase := phase
    progressCompletedItems := completedItems
    progressTotalItems := max 1 totalItems
    updatedAt := now }

/-- The `UPDATE` of `_finish_durable_document_job` without an error. -/
def completeRow (claim : Claim) (row : JobRow) : JobRow :=
  { row with
    status := .completed
    availableAt := now
    lockedAt := none
    lockedBy := none
    lastErrorCode := none
    lastErrorMessage := none
    completedAt := some now
    progressPhase := "completed"
    progressCompletedItems := max 1 claim.progressTotalItems
    progressTotalItems := max 1 claim.progressTotalItems
    updatedAt := now }

def Failure.retries (error : Failure) (claim : Claim) : Bool :=
  error.kind ≠ .input && error.kind ≠ .authorization && claim.attemptCount < job.settings.maxAttempts

def Failure.errorMessage (error : Failure) : String :=
  if error.kind = .other then "Tác vụ tài liệu không thành công." else (error.message.take 500).toString

/-- The `UPDATE` of `_finish_durable_document_job` after an error. -/
def failRow (error : Failure) (claim : Claim) (row : JobRow) : JobRow :=
  { row with
    status := if error.retries job claim then .retry else .failed
    availableAt := if error.retries job claim then now + min 30 (2 ^ claim.attemptCount) else now
    lockedAt := none
    lockedBy := none
    lastErrorCode := some (error.className.take 96).toString
    lastErrorMessage := some error.errorMessage
    completedAt := if error.retries job claim then none else some now
    progressPhase := if error.retries job claim then "queued" else "failed"
    progressCompletedItems := claim.progressCompletedItems
    progressTotalItems := max 1 claim.progressTotalItems
    updatedAt := now }

/-- The `UPDATE` of `cancel_document_export`. -/
def cancelRow : JobRow :=
  if row.status = .pending ∨ row.status = .retry then
    { row with
      status := .failed
      cancelledAt := some now
      completedAt := some now
      lastErrorCode := some "JOB_CANCELLED"
      lastErrorMessage := none
      progressPhase := "cancelled"
      updatedAt := now }
  else row

/-- The `UPDATE` of `retry_failed_durable_document_job`. -/
def retryRow : JobRow :=
  if row.status = .failed ∧ row.cancelledAt = none then
    { row with
      status := .retry
      attemptCount := 0
      availableAt := now
      lockedAt := none
      lockedBy := none
      completedAt := none
      progressPhase := "queued"
      progressCompletedItems := 0
      expiresAt := now + job.settings.retentionSeconds
      updatedAt := now }
  else row

def purgeable : Bool :=
  row.expiresAt ≤ now &&
    (row.status = .completed || row.status = .failed ||
      ((row.status = .pending || row.status = .retry) && row.updatedAt + 300 ≤ now) ||
      (row.status = .processing && row.lockedAt.any fun lockedAt => lockedAt + 900 ≤ now))

abbrev ProvenanceTable := String → Option ProvenanceRow

def Job.artifactId (count index : ℕ) : String :=
  if 1 < count then s!"document-job:{job.id}:{index + 1}" else s!"document-job:{job.id}"

/-- `record_generated_provenance`: insert unless the artifact has a row, which must then say the same. -/
def recordGeneratedProvenance (table : ProvenanceTable) (artifactId : String) (row : ProvenanceRow) : Option ProvenanceTable :=
  match table artifactId with
  | none => some (Function.update table artifactId (some row))
  | some old =>
    if old.source.templateVersionId = row.source.templateVersionId ∧
        old.source.templateSha256 = row.source.templateSha256 ∧ old.artifactSha256 = row.artifactSha256 then
      some table
    else none

/-- The artifacts of a result, one for each provenance. -/
def Job.artifactContents (count : ℕ) (content : String) : Option (List String) :=
  if count = 1 then some [content]
  else match job.unzip content with
    | none => none
    | some entries => if entries.length = count then some entries else none

/-- The provenance rows that a finish without an error records, or nothing when it raises. -/
def Job.recordProvenance (result : Result) (table : ProvenanceTable) : Option ProvenanceTable :=
  match job.ownerScoped, job.artifactProvenance with
  | true, some provenances =>
    match result with
    | .value _ => none
    | .bytes content =>
      if content = "" ∨ provenances = [] then none
      else match job.artifactContents provenances.length content with
        | none => none
        | some contents =>
          (provenances.zip contents).zipIdx.foldlM (fun table entry =>
            recordGeneratedProvenance table (job.artifactId provenances.length entry.2) ⟨entry.1.1, job.sha256 entry.1.2⟩) table
  | _, _ => some table

end Transactions

/-- Where a worker is in `_process_claimed_document_job`. -/
inductive Phase where
  | preparing | unlinkingJson | unlinkingBin | rendering | rendered
  | wroteBin (content : String)
  | wrote
  | finalizing (result : Result)
  | finishing (result : Result)
  | failing (error : Failure)
  | failingBin (error : Failure)
  | failed (error : Failure)
  deriving DecidableEq

/-- What the worker has not given up on yet: the part of the work inside `try`. -/
def Phase.trying : Phase → Bool
  | .failing _ => false
  | .failingBin _ => false
  | .failed _ => false
  | _ => true

structure Stored where
  row : Option JobRow
  provenance : ProvenanceTable
  files : Files

def Stored.putRow (s : Stored) (row : Option JobRow) : Stored := { s with row := row }

def Stored.putJson (s : Stored) (json : Option (File Envelope)) : Stored :=
  { s with files := { s.files with json := json } }

def Stored.putBin (s : Stored) (bin : Option (File String)) : Stored :=
  { s with files := { s.files with bin := bin } }

/-- What a step of a worker does. -/
inductive Deed where
  | unlinkJson | unlinkBin | writeFile
  | updateRow
  | finish (result : Result)
  | nothing
  deriving DecidableEq

/-- One step of a worker on its claim, and the phase it goes on with, if it does. `now` is a time the code has
read. -/
inductive Work (job : Job) (clock : ℕ) (claim : Claim) (s : Stored) : Phase → Deed → Stored → Option Phase → Prop where
  | prepare (now : ℕ) : now ≤ clock → Work job clock claim s .preparing .updateRow
        (s.putRow (guarded claim (progressRow now "preparing" 0 job.totalItems) s.row)) (some .unlinkingJson)
  | unlinkJson : Work job clock claim s .unlinkingJson .unlinkJson (s.putJson none) (some .unlinkingBin)
  | unlinkBin : Work job clock claim s .unlinkingBin .unlinkBin (s.putBin none) (some .rendering)
  | render (now : ℕ) : now ≤ clock → Work job clock claim s .rendering .updateRow
        (s.putRow (guarded claim (progressRow now "rendering" 0 job.totalItems) s.row)) (some .rendered)
  | writeBin (content : String) : s.files.bin = none →
      Work job clock claim s .rendered .writeFile (s.putBin (some ⟨content, claim.token⟩)) (some (.wroteBin content))
  | writeBytes (content : String) : Work job clock claim s (.wroteBin content) .writeFile
        (s.putJson (some ⟨.bytes content.utf8ByteSize (job.sha256 content), claim.token⟩)) (some .wrote)
  | writeValue (text : String) :
      Work job clock claim s .rendered .writeFile (s.putJson (some ⟨.value text, claim.token⟩)) (some .wrote)
  | writeError (errorType message : String) : Work job clock claim s .rendered .writeFile
        (s.putJson (some ⟨.error errorType message, claim.token⟩)) (some .wrote)
  | writeLateError (content errorType message : String) : Work job clock claim s (.wroteBin content) .writeFile
        (s.putJson (some ⟨.error errorType message, claim.token⟩)) (some .wrote)
  | read (result : Result) : job.readResult s.files = some result →
      Work job clock claim s .wrote .nothing s (some (.finalizing result))
  | finalize (now : ℕ) (result : Result) : now ≤ clock → Work job clock claim s (.finalizing result) .updateRow
        (s.putRow (guarded claim (progressRow now "finalizing" job.totalItems job.totalItems) s.row)) (some (.finishing result))
  | finish (now : ℕ) (result : Result) (table : ProvenanceTable) : now ≤ clock →
      job.recordProvenance result s.provenance = some table → Work job clock claim s (.finishing result) (.finish result)
        { s.putRow (guarded claim (completeRow now claim) s.row) with provenance := table } none
  | raise (phase : Phase) (error : Failure) : phase.trying = true →
      Work job clock claim s phase .nothing s (some (.failing error))
  | failJson (error : Failure) : Work job clock claim s (.failing error) .unlinkJson (s.putJson none) (some (.failingBin error))
  | failBin (error : Failure) : Work job clock claim s (.failingBin error) .unlinkBin (s.putBin none) (some (.failed error))
  | keepJson (error : Failure) : Work job clock claim s (.failing error) .nothing s (some (.failingBin error))
  | keepBin (error : Failure) : Work job clock claim s (.failingBin error) .nothing s (some (.failed error))
  | fail (now : ℕ) (error : Failure) : now ≤ clock → Work job clock claim s (.failed error) .updateRow
        (s.putRow (guarded claim (failRow job now error claim) s.row)) none
  | killed (phase : Phase) : Work job clock claim s phase .nothing s none

/-! ## Runs -/

/-- The state of the job and its workers; `claims` have been made, and `completed` is the claim that completed
the job with what its worker had read. -/
structure World (ι : Type) where
  stored : Stored
  task : ι → Option (Claim × Phase)
  clock : ℕ
  claims : ℕ
  completed : Option (ℕ × Result)

inductive Action (ι : Type) where
  | advance | cancel | retry | consume | expire | remove
  | claim (i : ι)
  | work (i : ι) (deed : Deed)
  deriving DecidableEq

/-- The claim that completes the job, when its `UPDATE` meets the row. -/
def completedBy (claim : Claim) (deed : Deed) (row : Option JobRow) (old : Option (ℕ × Result)) : Option (ℕ × Result) :=
  match deed, row with
  | .finish result, some row =>
    if row.status = .processing ∧ row.lockedBy = some claim.token then some (claim.token, result) else old
  | _, _ => old

variable {ι : Type} [DecidableEq ι]

/-- One step of the job. -/
inductive Step (job : Job) (w : World ι) : Action ι → World ι → Prop where
  | advance (seconds : ℕ) : Step job w .advance { w with clock := w.clock + seconds }
  | cancel (now : ℕ) : now ≤ w.clock →
      Step job w .cancel { w with stored := w.stored.putRow (w.stored.row.map (cancelRow now)) }
  | retry (now : ℕ) : now ≤ w.clock →
      Step job w .retry { w with stored := w.stored.putRow (w.stored.row.map (retryRow job now)) }
  | consume (row : JobRow) : w.stored.row = some row → row.status = .completed →
      Step job w .consume { w with stored := w.stored.putRow none }
  | expire (now : ℕ) (row : JobRow) : now ≤ w.clock → w.stored.row = some row → purgeable now row = true →
      Step job w .expire { w with stored := w.stored.putRow none }
  /-- the directory of a job is removed after its row -/
  | remove : w.stored.row = none → Step job w .remove { w with stored := { w.stored with files := ⟨none, none⟩ } }
  | claim (i : ι) (now : ℕ) (row : JobRow) : now ≤ w.clock → w.task i = none → w.stored.row = some row →
      claimable job now row = true → Step job w (.claim i)
        { stored := w.stored.putRow (some (claimRow now w.claims row))
          task := Function.update w.task i (some (row.claim w.claims, .preparing))
          clock := w.clock
          claims := w.claims + 1
          completed := w.completed }
  | work (i : ι) (claim : Claim) (phase : Phase) (deed : Deed) (s : Stored) (next : Option Phase) :
      w.task i = some (claim, phase) → Work job w.clock claim w.stored phase deed s next → Step job w (.work i deed)
        { stored := s
          task := Function.update w.task i (next.map fun phase => (claim, phase))
          clock := w.clock
          claims := w.claims
          completed := completedBy claim deed w.stored.row w.completed }

/-- The `INSERT` of `_enqueue_durable_document_job`. -/
def enqueuedRow (progressPhase : String) (progressCompletedItems progressTotalItems now retentionSeconds : ℕ) : JobRow where
  status := .pending
  attemptCount := 0
  availableAt := now
  lockedAt := none
  lockedBy := none
  lastErrorCode := none
  lastErrorMessage := none
  completedAt := none
  cancelledAt := none
  progressPhase := progressPhase
  progressCompletedItems := progressCompletedItems
  progressTotalItems := max 1 progressTotalItems
  expiresAt := now + retentionSeconds
  updatedAt := now

/-- A job that was just enqueued, at a time. -/
def World.start (job : Job) (progressPhase : String) (progressCompletedItems progressTotalItems clock : ℕ)
    (provenance : ProvenanceTable) : World ι where
  stored :=
    { row := some
        (enqueuedRow progressPhase progressCompletedItems progressTotalItems clock job.settings.retentionSeconds)
      provenance := provenance
      files := ⟨none, none⟩ }
  task := fun _ => none
  clock := clock
  claims := 0
  completed := none

inductive Reached (job : Job) (P : World ι → Action ι → Prop) : World ι → Prop where
  | start (progressPhase : String) (progressCompletedItems progressTotalItems clock : ℕ) (provenance : ProvenanceTable) :
      Reached job P (.start job progressPhase progressCompletedItems progressTotalItems clock provenance)
  | step {w w' : World ι} {a : Action ι} : Reached job P w → Step job w a w' → P w a → Reached job P w'

end Bidding.Documents
