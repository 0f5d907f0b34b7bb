import Bidding.Billing.Effects
import Bidding.Billing.ExactlyOnce
import Bidding.Foundations.Booking

/-!
# The renewal orders of an owner

An owner has one subscription and any number of orders that renew it. A call works on one order; it
reads the renewals of the others that wait, and may write the subscription.
-/

namespace Bidding.Billing

open Foundations Usage

structure OrderFile where
  order : Order
  item : Option OrderItem
  activation : Option Activation
  refundPending : Bool

def Activation.scheduled (row : Activation) : Option Scheduled :=
  match row.state, row.after with
  | .pending, .scheduled renewal => some renewal
  | _, _ => none

/-- The renewal an order waits with, as the orders behind it see it. -/
def OrderFile.queued (file : OrderFile) : Option QueuedRenewal :=
  if file.order.operation = .renew ∧ file.order.paymentState = .verifiedPaid ∧
      file.order.activationState = .pending then
    file.activation.bind fun row =>
      row.scheduled.map fun renewal => ⟨renewal, row.expectedRevision, file.order.id⟩
  else none

structure GivenTerm where
  orderId : String
  startsAt : Int
  expiresAt : Int
  deriving DecidableEq

/-- The rows of one owner. `terms` is the history of the subscription: the terms that were written. -/
structure OwnerBilling where
  files : Dict String OrderFile
  payments : List Payment
  events : Dict String WebhookEvent
  ownerActive : Bool
  subscription : Option Subscription
  sameLogicalPlan : String → Option String → Bool
  credits : UsageTables
  terms : List GivenTerm

/-- `ORDER BY (after_json ->> 'expiresAt'), queued.id`. -/
def QueuedRenewal.before (a b : QueuedRenewal) : Bool :=
  a.after.expiresAt < b.after.expiresAt || (a.after.expiresAt = b.after.expiresAt && a.orderId ≤ b.orderId)

def OwnerBilling.queuedRenewals (w : OwnerBilling) (id : String) : List QueuedRenewal :=
  (w.files.entries.filterMap fun entry => if entry.1 = id then none else entry.2.queued).insertionSort fun a b => a.before b

/-- What a call on an order works on; the history of its benefits starts with the call. -/
def OwnerBilling.view (w : OwnerBilling) (id : String) (file : OrderFile) : Books where
  order := file.order
  item := file.item
  activation := file.activation
  payments := w.payments
  events := w.events
  refundPending := file.refundPending
  ownerActive := w.ownerActive
  subscription := w.subscription
  queuedRenewals := w.queuedRenewals id
  sameLogicalPlan := w.sameLogicalPlan
  credits := w.credits
  benefits := []

def Benefit.termOf (id : String) : Benefit → Option GivenTerm
  | .term startsAt expiresAt => some ⟨id, startsAt, expiresAt⟩
  | .credits _ _ => none

def Books.toFile (s : Books) : OrderFile := ⟨s.order, s.item, s.activation, s.refundPending⟩

/-- The rows after a call on an order. -/
def OwnerBilling.store (w : OwnerBilling) (id : String) (s : Books) : OwnerBilling where
  files := w.files.set id s.toFile
  payments := s.payments
  events := s.events
  ownerActive := s.ownerActive
  subscription := s.subscription
  sameLogicalPlan := s.sameLogicalPlan
  credits := s.credits
  terms := w.terms ++ s.benefits.filterMap (Benefit.termOf id)

/-- An administrator sends an order to review. -/
def OrderFile.sentToReview (file : OrderFile) : OrderFile :=
  { file with order := { file.order with
      activationState := .reviewRequired, revision := file.order.revision + 1 } }

/-- What else is written: orders are added, and their checkouts, the payments and the events change. -/
structure Beside (w w' : OwnerBilling) : Prop where
  subscription : w'.subscription = w.subscription
  terms : w'.terms = w.terms
  kept : ∀ id file, w.files.get? id = some file → ∃ file', w'.files.get? id = some file' ∧
    file'.order.id = file.order.id ∧ file'.order.operation = file.order.operation ∧
    file'.order.paymentState = file.order.paymentState ∧
    file'.order.activationState = file.order.activationState ∧ file'.activation = file.activation
  added : ∀ id file, w.files.get? id = none → w'.files.get? id = some file →
    file.order.id = id ∧ file.order.operation = .renew ∧ file.activation = none

/-- A webhook event is worked on with the order it names. -/
def Addressed (s : Books) : BillingCall → Prop
  | .webhook eventId _ providerProfileId => ∀ event, s.events.get? eventId = some event →
    s.order.providerProfileId = providerProfileId ∧
      (event.signed.orderCode.orElse (.int 0)).toInt = some s.order.providerOrderCode
  | .query _ _ => True
  | .retry => True

inductive OwnerAct where
  | call | review

/-- One step on the orders of the owner, where `P` allows what is done with the order: a call of the
activation, a review by an administrator, or what else is written. -/
inductive OwnerStep (py : PyRuntime) (P : OwnerBilling → OwnerAct → String → OrderFile → Prop)
    (w : OwnerBilling) : OwnerBilling → Prop
  | call (id : String) (file : OrderFile) (draws : Draws) (call : BillingCall) (s' : Books)
      (out : Outcome) (hfile : w.files.get? id = some file) (hallowed : P w .call id file)
      (haddressed : Addressed (w.view id file) call)
      (h : call.run py (w.view id file) draws = some (s', out)) : OwnerStep py P w (w.store id s')
  | review (id : String) (file : OrderFile) (hfile : w.files.get? id = some file) (hallowed : P w .review id file) :
      OwnerStep py P w { w with files := w.files.set id file.sentToReview }
  | elsewhere (w' : OwnerBilling) (h : Beside w w') : OwnerStep py P w w'

inductive OwnerRun (py : PyRuntime) (P : OwnerBilling → OwnerAct → String → OrderFile → Prop)
    (w : OwnerBilling) : OwnerBilling → Prop
  | start : OwnerRun py P w w
  | step {w' w'' : OwnerBilling} (hrun : OwnerRun py P w w') (h : OwnerStep py P w' w'') : OwnerRun py P w w''

end Bidding.Billing
