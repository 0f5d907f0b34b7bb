import Mathlib.Data.List.Sort
import Bidding.Foundations.Collation
import Bidding.Foundations.Fallible
import Bidding.Foundations.Saturate
import Bidding.Foundations.Table
import Bidding.Sync.Text

/-!
# The usage credits of an owner

A fetch reserves one of the granted credits for one source revision before it starts, consumes it once the snapshot is
committed, and releases it otherwise. A statement that breaks a constraint takes the transaction of the call back.
-/

namespace Bidding.Usage

open Foundations

/-- The errors of the service: a `ValueError`, a `CommercialPolicyError`, or a statement that breaks
a constraint of the database. -/
inductive UsageError where
  | value (message : String)
  | commercialPolicy (code message : String) (statusCode : ℕ) (details : List (String × Scalar))
  | constraint (table : String)
  deriving DecidableEq

def decisionRequired : String := "COMMERCIAL_POLICY_DECISION_REQUIRED"

def quotaExhausted : String := "QUOTA_EXHAUSTED"

/-- `_required_text(value, field)`, without its error. -/
def requiredText (value : Scalar) : Option String :=
  let text := value.orEmptyText
  if text = "" ∨ 200 < text.length then none else some text

theorem requiredText_requiredText {value : Scalar} {text : String} (h : requiredText value = some text) :
    requiredText (.str text) = some text := by
  unfold requiredText at h
  simp only at h
  split at h
  · exact absurd h (by simp)
  rename_i hbounds
  cases h
  rw [not_or] at hbounds
  have hstrip : Scalar.orEmptyText (.str value.orEmptyText) = value.orEmptyText := by
    have htruthy : (Scalar.str value.orEmptyText).truthy = true := by simp [Scalar.truthy, hbounds.1]
    rw [Scalar.orEmptyText, if_pos htruthy, Scalar.text]
    unfold Scalar.orEmptyText
    split
    · exact pyStrip_pyStrip _
    · decide
  simp only [requiredText, hstrip]
  rw [if_neg (not_or.mpr hbounds)]

inductive OwnerKind where
  | account | organization
  deriving DecidableEq

/-- `UsageOwner`: its identifier is a required text. -/
structure UsageOwner where
  kind : OwnerKind
  identifier : String
  required : requiredText (.str identifier) = some identifier
  deriving DecidableEq

/-- `UsageOwner(kind, identifier)`. -/
def UsageOwner.make (kind : String) (identifier : Scalar) : Except UsageError UsageOwner :=
  let withKind (kind : OwnerKind) : Except UsageError UsageOwner :=
    match h : requiredText identifier with
    | some text => .ok ⟨kind, text, requiredText_requiredText h⟩
    | none => .error (.value "Invalid owner.")
  if kind = "account" then withKind .account
  else if kind = "organization" then withKind .organization
  else .error (.value "Invalid usage owner kind.")

/-- `SourceRevisionCandidate`; its `identity` is all of it. -/
structure SourceRevisionCandidate where
  provider : String
  entityKind : String
  sourceCode : String
  sourceRevision : String
  deriving DecidableEq

inductive CandidateInput where
  | made (candidate : SourceRevisionCandidate)
  | fields (provider entityKind sourceCode sourceRevision : Scalar)

/-- `SourceRevisionCandidate.__post_init__`. -/
def CandidateInput.make (t : PyText) : CandidateInput → Except UsageError SourceRevisionCandidate
  | .made candidate => .ok candidate
  | .fields provider entityKind sourceCode sourceRevision =>
    match requiredText provider with
    | none => .error (.value "Invalid provider.")
    | some provider =>
      match requiredText entityKind with
      | none => .error (.value "Invalid entity kind.")
      | some entityKind =>
        match requiredText sourceCode with
        | none => .error (.value "Invalid source code.")
        | some sourceCode =>
          match requiredText sourceRevision with
          | none => .error (.value "Invalid source revision.")
          | some sourceRevision => .ok ⟨t.casefold provider, t.upper entityKind, t.upper sourceCode, sourceRevision⟩

/-! ## The tables -/

/-- A row of `usage_credit_grants`. -/
structure Grant where
  id : String
  owner : UsageOwner
  total : Int
  remaining : Int
  reserved : Int
  source : String
  orderItemId : Option String
  releaseId : String
  policyChecksum : String
  issuedAt : Int
  expiresAt : Int
  deriving DecidableEq

/-- The `CHECK` constraints of a grant. -/
def Grant.Checked (g : Grant) : Prop :=
  0 < g.total ∧ (0 ≤ g.remaining ∧ g.remaining ≤ g.total) ∧ (0 ≤ g.reserved ∧ g.reserved ≤ g.remaining) ∧
    g.source ∈ ["plan", "purchase", "admin"] ∧ g.policyChecksum.length = 64 ∧ 0 < g.issuedAt ∧
    g.issuedAt < g.expiresAt

instance (g : Grant) : Decidable g.Checked := by unfold Grant.Checked; infer_instance

/-- `SET reserved = reserved + 1`. -/
def Grant.reserveOne (g : Grant) : Grant := { g with reserved := g.reserved + 1 }

/-- `SET remaining = remaining - 1, reserved = reserved - 1 WHERE remaining > 0 AND reserved > 0`. -/
def Grant.consumeOne (g : Grant) : Grant :=
  if 0 < g.remaining ∧ 0 < g.reserved then
    { g with remaining := g.remaining - 1, reserved := g.reserved - 1 }
  else g

/-- `SET reserved = reserved - 1 WHERE reserved > 0`. -/
def Grant.releaseOne (g : Grant) : Grant :=
  if 0 < g.reserved then { g with reserved := g.reserved - 1 } else g

inductive ReservationState where
  | reserved | consumed | released
  deriving DecidableEq

/-- A row of `usage_reservations`. -/
structure Reservation where
  id : String
  owner : UsageOwner
  candidate : SourceRevisionCandidate
  jobKey : String
  grantId : String
  state : ReservationState
  leaseExpiresAt : Int
  deriving DecidableEq

/-- A change of the rows in a state: `WHERE … AND state = ?`. -/
def Reservation.inState (state : ReservationState) (f : Reservation → Reservation) (r : Reservation) : Reservation :=
  if r.state = state then f r else r

/-- `SET state = ?`. -/
def Reservation.enter (state : ReservationState) (r : Reservation) : Reservation :=
  { r with state := state }

inductive EntryType where
  | grant | reserve | consume | release
  deriving DecidableEq

/-- A row of `usage_ledger`. -/
structure LedgerEntry where
  grantId : String
  reservationId : Option String
  entryType : EntryType
  quantity : Int
  balanceAfter : Int
  deriving DecidableEq

structure UsageTables where
  grants : List Grant
  reservations : List Reservation
  ledger : List LedgerEntry
  deriving DecidableEq

namespace UsageTables

def empty : UsageTables := ⟨[], [], []⟩

variable (s : UsageTables)

variable (id : String)

def getGrant : Option Grant := rowAt Grant.id id s.grants

def getReservation : Option Reservation :=
  rowAt Reservation.id id s.reservations

def findReservation (owner : UsageOwner) (candidate : SourceRevisionCandidate) : Option Reservation :=
  s.reservations.find? fun r => r.owner = owner ∧ r.candidate = candidate

/-- `INSERT INTO usage_credit_grants`. -/
def insertGrant (g : Grant) : Except UsageError UsageTables :=
  if g.Checked ∧ s.getGrant g.id = none then .ok { s with grants := s.grants ++ [g] }
  else .error (.constraint "usage_credit_grants")

/-- `UPDATE usage_credit_grants SET … WHERE id = ?`. -/
def updateGrant (f : Grant → Grant) : Except UsageError UsageTables :=
  let grants := updateAt Grant.id id f s.grants
  if ∀ g ∈ grants, g.Checked then .ok { s with grants := grants }
  else .error (.constraint "usage_credit_grants")

/-- `INSERT INTO usage_reservations`, under the key of the owner and the revision. -/
def insertReservation (r : Reservation) : Except UsageError UsageTables :=
  if s.getReservation r.id = none ∧ s.findReservation r.owner r.candidate = none ∧
      (s.getGrant r.grantId).isSome then
    .ok { s with reservations := s.reservations ++ [r] }
  else .error (.constraint "usage_reservations")

/-- `UPDATE usage_reservations SET … WHERE id = ? AND state = ?`, with its `rowcount`. -/
def updateReservation (state : ReservationState) (f : Reservation → Reservation) : UsageTables × ℕ :=
  ({ s with reservations := updateAt Reservation.id id (Reservation.inState state f) s.reservations },
    s.reservations.countP fun r => r.id = id ∧ r.state = state)

/-- `_ledger(…)`, under the checks of its table. -/
def addEntry (e : LedgerEntry) : Except UsageError UsageTables :=
  if e.quantity ≠ 0 ∧ 0 ≤ e.balanceAfter then .ok { s with ledger := s.ledger ++ [e] }
  else .error (.constraint "usage_ledger")

end UsageTables

structure ReservationPayload where
  id : String
  state : ReservationState
  grantId : String
  candidate : SourceRevisionCandidate
  leaseExpiresAt : Int
  deriving DecidableEq

def Reservation.payload (r : Reservation) : ReservationPayload :=
  ⟨r.id, r.state, r.grantId, r.candidate, r.leaseExpiresAt⟩

/-- `grant(…)`, where `grantId` is the id drawn. -/
def grant (s : UsageTables) (owner : UsageOwner) (quantity : Int) (source releaseId policyChecksum : String)
    (issuedAt expiresAt : Int) (orderItemId : Option String) (grantId : String) : Except UsageError UsageTables :=
  if quantity ≤ 0 ∨ expiresAt ≤ issuedAt then
    .error (.value "Invalid usage grant quantity or expiry.")
  else if source ∉ ["plan", "purchase", "admin"] then .error (.value "Invalid usage grant source.")
  else if policyChecksum.length ≠ 64 then .error (.value "Invalid usage policy checksum.")
  else
    (s.insertGrant ⟨grantId, owner, quantity, quantity, 0, source, orderItemId, releaseId,
      policyChecksum, issuedAt, expiresAt⟩).bind fun s =>
    s.addEntry ⟨grantId, none, .grant, quantity, quantity⟩

/-! ## Reserve -/

/-- The distinct elements, in the order they first occur: `unique.setdefault`. -/
def distinct {α : Type} [DecidableEq α] (l : List α) : List α :=
  l.foldl (fun seen a => if a ∈ seen then seen else seen ++ [a]) []

def listMissingSourceRevisions (t : PyText) (candidates : List CandidateInput) :
    Except UsageError (List SourceRevisionCandidate) :=
  (candidates.mapM (CandidateInput.make t)).map distinct

structure GrantLine where
  id : String
  remaining : Int
  reserved : Int
  deriving DecidableEq

variable (collation : Collation)

/-- The order of `ORDER BY expires_at, issued_at, id`. -/
def Grant.rank (g : Grant) : Int ×ₗ Int ×ₗ Collated collation :=
  toLex (g.expiresAt, toLex (g.issuedAt, g.id))

def lockAvailableGrants (s : UsageTables) (owner : UsageOwner) (now : Int) : List GrantLine :=
  ((s.grants.filter fun g => g.owner = owner ∧ now < g.expiresAt ∧ g.reserved < g.remaining).insertionSort
    fun a b => a.rank collation ≤ b.rank collation).map fun g => ⟨g.id, g.remaining, g.reserved⟩

abbrev Pending : Type := SourceRevisionCandidate × Option Reservation

/-- What the loop writes with every reservation. -/
structure ReserveContext where
  owner : UsageOwner
  jobKey : String
  leaseExpiresAt : Int
  /-- The id drawn for the reservation of a candidate. -/
  newId : SourceRevisionCandidate → String

variable (ctx : ReserveContext)

def ReserveContext.again (grantId : String) (r : Reservation) : Reservation :=
  { r with grantId := grantId, state := .reserved, jobKey := ctx.jobKey,
           leaseExpiresAt := ctx.leaseExpiresAt }

def ReserveContext.first (grantId : String) (c : SourceRevisionCandidate) : Reservation :=
  ⟨ctx.newId c, ctx.owner, c, ctx.jobKey, grantId, .reserved, ctx.leaseExpiresAt⟩

def placeReservation (s : UsageTables) (grantId : String) (item : Pending) : Except UsageError (UsageTables × String) :=
  match item.2 with
  | some old => .ok ((s.updateReservation old.id .released (ctx.again grantId)).1, old.id)
  | none =>
    (s.insertReservation (ctx.first grantId item.1)).map fun s => (s, ctx.newId item.1)

/-- One pass of the loop body, on the grant `line` that has a credit left. -/
def reserveOne (ctx : ReserveContext) (s : UsageTables) (line : GrantLine) (item : Pending) :
    Except UsageError (UsageTables × ReservationPayload) :=
  (s.updateGrant line.id Grant.reserveOne).bind fun s =>
  (placeReservation ctx s line.id item).bind fun placed =>
  (placed.1.addEntry ⟨line.id, some placed.2, .reserve, -1, line.remaining - (line.reserved + 1)⟩).map
    fun s => (s, ⟨placed.2, .reserved, line.id, item.1, ctx.leaseExpiresAt⟩)

/-- The loop over the pending candidates. The grants used up lie before the list it carries. -/
def reservePending (ctx : ReserveContext) :
    List Pending → List GrantLine → UsageTables → Except UsageError (UsageTables × List ReservationPayload)
  | [], _, s => .ok (s, [])
  | item :: rest, lines, s =>
    match lines.dropWhile fun line => line.remaining - line.reserved ≤ 0 with
    | [] => .ok (s, [])
    | line :: others =>
      (reserveOne ctx s line item).bind fun one =>
      (reservePending ctx rest ({ line with reserved := line.reserved + 1 } :: others) one.1).map
        fun more => (more.1, one.2 :: more.2)

def Reservation.isHeld (r : Reservation) : Bool := r.state = .reserved ∨ r.state = .consumed

def pendingOf (s : UsageTables) (owner : UsageOwner) (candidates : List SourceRevisionCandidate) : List Pending :=
  (candidates.map fun c => (c, s.findReservation owner c)).filter fun item => !item.2.any Reservation.isHeld

def existingOf (s : UsageTables) (owner : UsageOwner) (candidates : List SourceRevisionCandidate) : List ReservationPayload :=
  candidates.filterMap fun c => ((s.findReservation owner c).filter Reservation.isHeld).map Reservation.payload

def partialBatchPolicies : List String :=
  ["blocked_decision", "reject_all", "process_affordable_in_stable_order"]

/-- `reserve_source_fetch_batch(…)` after its arguments are read. -/
def reserveNormalized (s : UsageTables) (ctx : ReserveContext) (now : Int)
    (policyKind : String) (normalized : List SourceRevisionCandidate) :
    Except UsageError (UsageTables × List ReservationPayload) :=
  if normalized = [] then .ok (s, [])
  else if policyKind = "blocked_decision" ∧ 1 < normalized.length then
    .error (.commercialPolicy decisionRequired "Chưa chốt hành vi khi quota chỉ đủ một phần batch." 409
      [("decision", .str "partialBatch")])
  else if policyKind ∉ partialBatchPolicies then
    .error (.commercialPolicy decisionRequired "Policy partial batch không được hỗ trợ." 409 [])
  else
    let pending := pendingOf s ctx.owner normalized
    let grants := lockAvailableGrants collation s ctx.owner now
    let available : Int := (grants.map fun line => line.remaining - line.reserved).sum
    if available < pending.length ∧ policyKind ∈ ["blocked_decision", "reject_all"] then
      .error (.commercialPolicy
        (if policyKind = "blocked_decision" ∧ 1 < normalized.length then decisionRequired else quotaExhausted)
        "Số dư lượt tra cứu không đủ cho batch đã chọn." 409 [("required", .int pending.length), ("available", .int available)])
    else
      let pending :=
        if policyKind = "process_affordable_in_stable_order" then pending.take available.toNat else pending
      (reservePending ctx pending grants s).map fun done => (done.1, existingOf s ctx.owner normalized ++ done.2)

/-- `reserve_source_fetch_batch(…)`. The clock is read for the grants and again for the lease. -/
def reserveSourceFetchBatch (t : PyText) (collation : Collation) (s : UsageTables) (owner : UsageOwner)
    (candidates : List CandidateInput) (jobKey : Scalar) (policyKind : String) (leaseSeconds : Int)
    (now later : Int) (newId : SourceRevisionCandidate → String) : Except UsageError (UsageTables × List ReservationPayload) :=
  if jobKey.orEmptyText = "" ∨ 200 < jobKey.orEmptyText.length then
    .error (.value "Invalid usage reservation job key.")
  else
    (listMissingSourceRevisions t candidates).bind
      (reserveNormalized collation s ⟨owner, jobKey.orEmptyText, later + max 60 leaseSeconds, newId⟩ now policyKind)

/-- `consume_reservation_item(reservation_id, committed_snapshot)`; of the snapshot only its id is
read, and `none` is a snapshot that is not a dictionary. -/
def consumeReservationItem (s : UsageTables) (reservationId : String) (snapshotId : Option Scalar) :
    Except UsageError (UsageTables × ReservationPayload) :=
  match s.getReservation reservationId with
  | none => .error (.value "Usage reservation not found.")
  | some r =>
    if r.state = .consumed then .ok (s, r.payload)
    else if r.state ≠ .reserved then
      .error (.commercialPolicy quotaExhausted "Reservation đã được giải phóng; không thể consume." 409 [])
    else if !snapshotId.any Scalar.truthy then
      .error (.value "Authoritative committed snapshot is required.")
    else
      match s.getGrant r.grantId with
      | none => .error (.value "Usage grant not found.")
      | some g =>
        let updated := s.updateReservation reservationId .reserved (.enter .consumed)
        if updated.2 ≠ 1 then .ok (updated.1, r.payload)
        else
          (updated.1.updateGrant g.id Grant.consumeOne).bind fun s =>
          (s.addEntry ⟨g.id, some reservationId, .consume, -1, g.remaining - 1⟩).map fun s =>
            (s, { r.payload with state := .consumed })

def releaseReservationItem (s : UsageTables) (reservationId : String) : Except UsageError (UsageTables × ReservationPayload) :=
  match s.getReservation reservationId with
  | none => .error (.value "Usage reservation not found.")
  | some r =>
    if r.state ≠ .reserved then .ok (s, r.payload)
    else
      match s.getGrant r.grantId with
      | none => .error (.value "Usage grant not found.")
      | some g =>
        let updated := s.updateReservation reservationId .reserved (.enter .released)
        if updated.2 = 1 then
          (updated.1.updateGrant g.id Grant.releaseOne).bind fun s =>
          (s.addEntry ⟨g.id, some reservationId, .release, 1, g.remaining - g.reserved + 1⟩).map fun s =>
            (s, { r.payload with state := .released })
        else .ok (updated.1, { r.payload with state := .released })

/-- The order of `ORDER BY lease_expires_at, id`. -/
def Reservation.rank (r : Reservation) : Int ×ₗ Collated collation :=
  toLex (r.leaseExpiresAt, r.id)

def expiredReservations (s : UsageTables) (now limit : Int) (locked : List String) : List String :=
  (((s.reservations.filter fun r =>
      r.state = .reserved ∧ r.leaseExpiresAt ≤ now ∧ r.id ∉ locked).insertionSort
    fun a b => a.rank collation ≤ b.rank collation).take (max 1 (min 1000 limit)).toNat).map Reservation.id

def releaseExpiredReservations (s : UsageTables) (now limit : Int) (locked : List String) : Except UsageError UsageTables :=
  (expiredReservations collation s now limit locked).foldlM (fun s id => (releaseReservationItem s id).map Prod.fst) s

/-- A call of the service. -/
inductive UsageCommand where
  | grant (owner : UsageOwner) (quantity : Int) (source releaseId policyChecksum : String)
      (issuedAt expiresAt : Int) (orderItemId : Option String) (grantId : String)
  | reserve (owner : UsageOwner) (candidates : List CandidateInput) (jobKey : Scalar) (policyKind : String)
      (leaseSeconds now later : Int) (newId : SourceRevisionCandidate → String)
  | consume (reservationId : String) (snapshotId : Option Scalar)
  | release (reservationId : String)
  | releaseExpired (now limit : Int) (locked : List String)

/-- The tables a call leaves. -/
def UsageCommand.run (t : PyText) (collation : Collation) (s : UsageTables) : UsageCommand → Except UsageError UsageTables
  | .grant owner quantity source releaseId policyChecksum issuedAt expiresAt orderItemId grantId =>
    Usage.grant s owner quantity source releaseId policyChecksum issuedAt expiresAt orderItemId grantId
  | .reserve owner candidates jobKey policyKind leaseSeconds now later newId =>
    (reserveSourceFetchBatch t collation s owner candidates jobKey policyKind leaseSeconds now later newId).map Prod.fst
  | .consume reservationId snapshotId => (consumeReservationItem s reservationId snapshotId).map Prod.fst
  | .release reservationId => (releaseReservationItem s reservationId).map Prod.fst
  | .releaseExpired now limit locked => releaseExpiredReservations collation s now limit locked

/-- A call that commits, or one its caller rolls back: after an error, or for a reason of its own. -/
inductive Step (t : PyText) (collation : Collation) (s : UsageTables) (command : UsageCommand) : UsageTables → Prop
  | committed {s' : UsageTables} (h : command.run t collation s = .ok s') : Step t collation s command s'
  | rolledBack : Step t collation s command s

inductive Run (t : PyText) (collation : Collation) (s : UsageTables) : UsageTables → Prop
  | start : Run t collation s s
  | step {s' s'' : UsageTables} (command : UsageCommand) (hrun : Run t collation s s')
      (hstep : Step t collation s' command s'') : Run t collation s s''

def UsageTables.runAll (t : PyText) (collation : Collation) (s : UsageTables) (commands : List UsageCommand) : UsageTables :=
  commands.foldl (fun s command => (command.run t collation s).toOption.getD s) s

theorem run_runAll (t : PyText) (collation : Collation) (s : UsageTables) (commands : List UsageCommand) :
    Run t collation s (s.runAll t collation commands) := by
  refine foldl_inv _ (Run t collation s) commands (fun s' command _ hrun => ?_) .start
  cases h : command.run t collation s' with
  | ok s'' => exact .step command hrun (.committed (by simpa [Except.toOption] using h))
  | error e => exact .step command hrun .rolledBack

end Bidding.Usage
