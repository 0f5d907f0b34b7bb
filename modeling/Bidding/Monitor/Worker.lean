import Bidding.Monitor.Changes

/-!
# The monitor's workers

A worker selects a package that is due, leases its notice under a token of its own, fetches what the source says
and finishes in one transaction: the digests that are known are written together with the notification, and only
under the token that is still stored.
-/

namespace Bidding.Monitor

open Foundations

def leaseSeconds : ℕ := 1800

def maxAttempts : ℕ := 3

/-- The key of a notice: its organisation, the root of its package and its number. -/
structure NoticeKey where
  organizationId : String
  packageRootId : String
  noticeNo : String
  deriving DecidableEq

/-- A row of `procurement_monitor_state`. -/
structure MonitorState where
  seen : Baselines
  completedSlot : ℕ
  attemptSlot : ℕ
  attempts : ℕ
  leaseToken : Option ℕ
  leaseUntil : ℕ
  retryAfter : ℕ
  lastCheckedAt : Option ℕ
  lastError : Option String

abbrev MonitorRows := NoticeKey → Option MonitorState

def Package.root (package : Package) : String := if package.idGoc = "" then package.id else package.idGoc

/-- `_key(package)`; a package without a notice number has no row. -/
def keyOf (t : NoticeTexts) (package : Package) : Option NoticeKey :=
  (noticeCode t package.maGoiThau).map fun noticeNo => ⟨package.organizationId, package.root, noticeNo⟩

/-- A run of a worker: its time, the slot it is for, and whether it only takes the first rows as known. -/
structure MonitorRun where
  epoch : ℕ
  slot : ℕ
  baselineOnly : Bool
  deriving DecidableEq

def monitorRun (epoch : ℕ) : MonitorRun :=
  match dueSlot epoch with
  | some slot => ⟨epoch, slot, false⟩
  | none => ⟨epoch, onDay epoch 0, true⟩

/-- Whether the database selects a package for a run. -/
def claimable (t : NoticeTexts) (rows : MonitorRows) (run : MonitorRun) (package : Package) : Bool :=
  let text := (t.upperTrim package.maGoiThau).toList
  let key : NoticeKey := ⟨package.organizationId, package.root, String.ofList (text.take 12)⟩
  noticeMatch Char.isDigit text &&
    (package.trangThai ≠ .awarded || package.ngayQuyetDinhKetQua.all fun day => (localDay run.epoch : ℤ) - 10 ≤ day) &&
    match rows key with
    | none => true
    | some state =>
      (!run.baselineOnly || categories.any fun category => (state.seen category).isNone) &&
        !(run.slot ≤ state.completedSlot || run.epoch < state.leaseUntil ||
          (state.attemptSlot = run.slot && run.epoch < state.retryAfter))

/-- The lease of a notice under a fresh token, where nobody holds one. -/
def lease (rows : MonitorRows) (run : MonitorRun) (key : NoticeKey) (token : ℕ) : Option MonitorRows :=
  match rows key with
  | none => some (Function.update rows key (some
      { seen := fun _ => none, completedSlot := 0, attemptSlot := run.slot, attempts := 1, leaseToken := some token,
        leaseUntil := run.epoch + leaseSeconds, retryAfter := 0, lastCheckedAt := none, lastError := none }))
  | some state =>
    if state.leaseUntil ≤ run.epoch ∧ state.completedSlot < run.slot then
      some (Function.update rows key (some { state with
        leaseToken := some token
        leaseUntil := run.epoch + leaseSeconds
        attempts := if state.attemptSlot = run.slot then state.attempts + 1 else 1
        attemptSlot := run.slot }))
    else none

/-! ## The end of a run -/

/-- What a run has observed: the rows of every category that was read, and whether the clarifications are known by
version. -/
structure Observed (ρ : Type) where
  rows : Category → Option (List ρ)
  rowsByVersion : Bool

/-- What an automatic write of clarifications has come to. -/
inductive WriteStatus where
  | written
  | alreadyPresent
  | newerRevision
  | notEntitled
  | targetInvalid
  | busy
  deriving DecidableEq

/-- What a finishing transaction finds outside the table. -/
structure FinishContext where
  epoch : ℕ
  current : Option Package
  autoWrite : Bool
  write : WriteStatus
  recipients : List String
  emailKey : Bool

/-- A notification of new content. The digests that its counts are of are not sent. -/
structure Notification where
  key : NoticeKey
  targets : List String
  counts : List (Category × ℕ)
  digests : Category → Finset String

structure Publication where
  seen : Baselines
  error : Option String
  notification : Option Notification

section Finish

variable {ρ : Type} (digest : ρ → String)

/-- What a run has observed of the categories that it checks: with `baseline_only` those that are not known. -/
def checkedRows (run : MonitorRun) (previous : Baselines) (observed : Option (Observed ρ)) :
    List (Category × Option (List ρ)) :=
  (categories.filter fun category => !run.baselineOnly || (previous category).isNone).map fun category =>
    (category, observed.bind fun o => o.rows category)

/-- `"SOURCE_UNAVAILABLE:" + ",".join(failures)`. -/
def unavailable (failures : List Category) : String :=
  "SOURCE_UNAVAILABLE:" ++ String.intercalate "," (failures.map fun category =>
    match category with
    | .clarification => "clarification"
    | .petition => "petition")

def publication (context : FinishContext) (run : MonitorRun) (key : NoticeKey) (state : MonitorState)
    (observed : Option (Observed ρ)) (failureReason : Option String) : Publication :=
  let checked := checkedRows run state.seen observed
  let result := changes digest state.seen checked
  let error := failureReason.or (if result.failures = [] then none else some (unavailable result.failures))
  let writes := result.counts.any (fun count => count.1 = .clarification) && observed.any Observed.rowsByVersion &&
    context.autoWrite
  if writes && context.write = .busy && state.attempts < maxAttempts then
    ⟨state.seen, some "AUTO_WRITE_BUSY", none⟩
  else if result.counts = [] then ⟨result.updated, error, none⟩
  else if context.recipients = [] then ⟨state.seen, some "NO_ELIGIBLE_RECIPIENT", none⟩
  else if !context.emailKey then ⟨state.seen, some "EMAIL_CONFIGURATION_MISSING", none⟩
  else ⟨result.updated, error, some ⟨key, context.recipients, result.counts, newDigests digest state.seen checked⟩⟩

/-- `_finish(package, token, slot, observed, …)`: the rows afterwards, and what was notified. -/
def finish (t : NoticeTexts) (context : FinishContext) (run : MonitorRun) (package : Package) (token : ℕ)
    (observed : Option (Observed ρ)) (failureReason : Option String) (rows : MonitorRows) : MonitorRows × Option Notification :=
  match (keyOf t package).bind fun key => (rows key).map fun state => (key, state) with
  | none => (rows, none)
  | some (key, state) =>
    if state.leaseToken ≠ some token then (rows, none)
    else if context.current.all fun current => keyOf t current ≠ some key || !eligible t current context.epoch then
      (Function.update rows key (some { state with leaseToken := none, leaseUntil := 0 }), none)
    else
      let published := publication digest context run key state observed failureReason
      let completed :=
        if published.error.isNone || maxAttempts ≤ state.attempts then run.slot else state.completedSlot
      (Function.update rows key (some { state with
        seen := published.seen
        completedSlot := completed
        leaseToken := none
        leaseUntil := 0
        retryAfter := context.epoch + 300 * state.attempts
        lastCheckedAt := some context.epoch
        lastError := published.error }), published.notification)

end Finish

/-- Where a worker stands. -/
inductive Phase (ρ : Type) where
  | idle
  | started (run : MonitorRun)
  | selected (run : MonitorRun) (package : Package)
  | leased (run : MonitorRun) (package : Package) (token : ℕ)
  | fetched (run : MonitorRun) (package : Package) (token : ℕ) (observed : Option (Observed ρ))
  | failed (run : MonitorRun) (package : Package) (token : ℕ) (reason : Option String)

/-- The clock, the packages, the table, the workers, the tokens that were given out, and the notifications. -/
structure World (ι ρ : Type) where
  clock : ℕ
  packages : List Package
  rows : MonitorRows
  workers : ι → Phase ρ
  tokens : ℕ
  notifications : List Notification

variable {ι ρ : Type} [DecidableEq ι]

def World.setWorker (w : World ι ρ) (i : ι) (phase : Phase ρ) : World ι ρ :=
  { w with workers := Function.update w.workers i phase }

/-- The package of a run, as a transaction that ends it reads it. -/
def currentPackage (packages : List Package) (package : Package) : Option Package :=
  packages.find? fun current => current.organizationId = package.organizationId && current.id = package.id

def World.finished (digest : ρ → String) (t : NoticeTexts) (w : World ι ρ) (context : FinishContext)
    (run : MonitorRun) (package : Package) (token : ℕ) (observed : Option (Observed ρ)) (reason : Option String) : World ι ρ :=
  let result := finish digest t context run package token observed reason w.rows
  { w with rows := result.1, notifications := w.notifications ++ result.2.toList }

/-- One step. Packages are edited, time passes, and every worker goes on by itself: it may be ended anywhere, a
select skips the packages that are locked, a fetch may fail or return anything, and a transaction that fails leaves
the world as it is. -/
inductive Step (digest : ρ → String) (t : NoticeTexts) (w : World ι ρ) : World ι ρ → Prop
  | tick (seconds : ℕ) : Step digest t w { w with clock := w.clock + seconds }
  | edit (packages : List Package) : Step digest t w { w with packages := packages }
  | start (i : ι) (h : w.workers i = .idle) : Step digest t w (w.setWorker i (.started (monitorRun w.clock)))
  | select (i : ι) (run : MonitorRun) (package : Package) (h : w.workers i = .started run)
      (hpackage : package ∈ w.packages) (hclaimable : claimable t w.rows run package = true) :
      Step digest t w (w.setWorker i (.selected run package))
  | lease (i : ι) (run : MonitorRun) (package : Package) (key : NoticeKey) (rows : MonitorRows)
      (h : w.workers i = .selected run package) (hkey : keyOf t package = some key)
      (hlease : lease w.rows run key w.tokens = some rows) : Step digest t w
        ({ w with rows := rows, tokens := w.tokens + 1 }.setWorker i (.leased run package w.tokens))
  | fetch (i : ι) (run : MonitorRun) (package : Package) (token : ℕ) (observed : Observed ρ)
      (h : w.workers i = .leased run package token) :
      Step digest t w (w.setWorker i (.fetched run package token (some observed)))
  | fetchFails (i : ι) (run : MonitorRun) (package : Package) (token : ℕ)
      (h : w.workers i = .leased run package token) : Step digest t w (w.setWorker i (.failed run package token none))
  | finish (i : ι) (run : MonitorRun) (package : Package) (token : ℕ) (observed : Option (Observed ρ))
      (context : FinishContext) (h : w.workers i = .fetched run package token observed)
      (hcurrent : context.current = currentPackage w.packages package) (hepoch : context.epoch ≤ w.clock) :
      Step digest t w ((w.finished digest t context run package token observed none).setWorker i .idle)
  | finishFails (i : ι) (run : MonitorRun) (package : Package) (token : ℕ) (observed : Option (Observed ρ))
      (h : w.workers i = .fetched run package token observed) :
      Step digest t w (w.setWorker i (.failed run package token (some "NOTIFICATION_ENQUEUE_FAILED")))
  | giveUp (i : ι) (run : MonitorRun) (package : Package) (token : ℕ) (reason : Option String)
      (context : FinishContext) (h : w.workers i = .failed run package token reason)
      (hcurrent : context.current = currentPackage w.packages package) (hepoch : context.epoch ≤ w.clock) :
      Step digest t w ((w.finished digest t context run package token none reason).setWorker i .idle)
  | crash (i : ι) : Step digest t w (w.setWorker i .idle)

inductive Run (digest : ρ → String) (t : NoticeTexts) (w : World ι ρ) : World ι ρ → Prop
  | start : Run digest t w w
  | step {w' w'' : World ι ρ} (hrun : Run digest t w w') (h : Step digest t w' w'') : Run digest t w w''

def initialWorld (clock : ℕ) (packages : List Package) : World ι ρ where
  clock := clock
  packages := packages
  rows _ := none
  workers _ := .idle
  tokens := 0
  notifications := []

end Bidding.Monitor
