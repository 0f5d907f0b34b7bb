import Bidding.Billing.Effects
import Bidding.Billing.ExactlyOnce
import Bidding.Foundations.Json

/-!
# Refund requests

`create_manual_refund_intent`, statement by statement. Requests on one order wait for each other at its row; other work
on the order comes in between.
-/

namespace Bidding.Billing

open Foundations Usage

inductive RefundState where
  | pending | succeeded | failed | cancelled
  deriving DecidableEq

/-- A row of `billing_refund_intents` of the order. -/
structure RefundIntent where
  id : String
  idempotencyKey : String
  amount : Int
  reason : String
  actorUserId : String
  method : String
  state : RefundState
  activationRevision : Int
  positive : 0 < amount
  deriving DecidableEq

/-- `state IN ('pending', 'succeeded')`. -/
def RefundIntent.counts (intent : RefundIntent) : Bool := intent.state ∈ [.pending, .succeeded]

def RefundIntent.taken (intent : RefundIntent) : Int := if intent.counts then intent.amount else 0

/-- `SELECT COALESCE(SUM(amount), 0) FROM billing_refund_intents`. -/
def refundedAmount (intents : List RefundIntent) : Int := (intents.map RefundIntent.taken).sum

def Payment.verifiedFor (orderId : String) (payment : Payment) : Int :=
  if payment.orderId = orderId ∧ payment.status ∈ ["verified", "settled"] then payment.verifiedPaidAmount
  else 0

/-- `SELECT COALESCE(SUM(verified_paid_amount), 0) FROM payment_transactions`. -/
def paidAmount (orderId : String) (payments : List Payment) : Int :=
  (payments.map (Payment.verifiedFor orderId)).sum

/-- `CommercialPolicyError`. -/
structure PolicyError where
  code : String
  message : String
  statusCode : Nat := 400
  deriving DecidableEq

/-- The arguments of a call; the reason and the key are `str(value or "")`. -/
structure RefundRequest where
  actorUserId : String
  amount : Scalar
  reason : String
  idempotencyKey : String

structure CheckedRefund where
  actorUserId : String
  amount : Int
  reason : String
  idempotencyKey : String
  positive : 0 < amount
  deriving DecidableEq

theorem pos_of_not_nonpos (amount : ℤ) (h : ¬amount ≤ 0) : 0 < amount := by omega

def checkRefundRequest (request : RefundRequest) : Except PolicyError CheckedRefund :=
  match request.amount.toInt with
  | none => .error ⟨"REFUND_AMOUNT_INVALID", "Số tiền hoàn không hợp lệ.", 400⟩
  | some amount =>
    if hpositive : amount ≤ 0 then .error ⟨"REFUND_AMOUNT_INVALID", "Số tiền hoàn phải dương.", 400⟩
    else
      let key := pyStrip request.idempotencyKey
      if ¬ (8 ≤ key.length ∧ key.length ≤ 128) then
        .error ⟨"INVALID_IDEMPOTENCY_KEY", "Thiếu Idempotency-Key hợp lệ.", 400⟩
      else .ok ⟨request.actorUserId, amount, .ofList (request.reason.toList.take 2000), key, pos_of_not_nonpos amount hpositive⟩

/-- A request with a key that has an intent: the intent, if it is for the same request. -/
def replayRefund (existing : RefundIntent) (request : CheckedRefund) : Except PolicyError RefundIntent :=
  if existing.amount ≠ request.amount ∨ existing.reason ≠ request.reason ∨
      existing.actorUserId ≠ request.actorUserId then
    .error ⟨"IDEMPOTENCY_KEY_REUSED", "Idempotency-Key đã được dùng cho yêu cầu refund khác.", 409⟩
  else .ok existing

/-- `value.get(key)`, where the value is a dictionary. -/
def dictEntry (key : String) : Value → Option Value
  | .obj fields => fields.reverse.lookup key
  | _ => none

/-- The refund policy of the purchase. -/
def refundsDisabled (decision : Option Value) : Bool :=
  (((decision.bind (dictEntry "policySnapshot")).bind (dictEntry "refund")).bind (dictEntry "kind")) = some (.str "no_refunds")

def checkRefundable (decision : Option Value) (paymentState : PaymentState) : Except PolicyError Unit :=
  if refundsDisabled decision then
    .error ⟨"REFUND_DISABLED_BY_POLICY", "Chính sách tại thời điểm mua không cho phép hoàn tiền.", 409⟩
  else if paymentState ∉ [.verifiedPaid, .partiallyRefunded] then
    .error ⟨"PAYMENT_NOT_REFUNDABLE", "Order chưa có payment fact đã xác minh.", 409⟩
  else .ok ()

/-- The bound a new intent has to keep. -/
def checkRefundBound (paid refunded amount : Int) : Except PolicyError Unit :=
  if paid < refunded + amount then
    .error ⟨"REFUND_AMOUNT_INVALID", "Tổng refund pending/succeeded vượt payment đã xác minh.", 409⟩
  else .ok ()

/-- `CHECK(length(trim(reason)) BETWEEN 3 AND 2000)`. -/
def reasonAdmitted (reason : String) : Bool :=
  let length := (trimBoth (· = ' ') reason.toList).length
  3 ≤ length && length ≤ 2000

def CheckedRefund.intent (request : CheckedRefund) (id : String) (revision : Int) : RefundIntent :=
  ⟨id, request.idempotencyKey, request.amount, request.reason, request.actorUserId,
    "manual_off_platform", .pending, revision, request.positive⟩

/-- Where a request is: the statements it has executed, with what they returned. -/
inductive RefundTask where
  | idle
  | locked (request : RefundRequest)
  | examined (request : CheckedRefund)
  | paid (request : CheckedRefund) (paid : Int)
  | summed (request : CheckedRefund) (paid refunded : Int)
  | inserted (request : CheckedRefund) (intent : RefundIntent)

/-- The committed rows of one order, who holds the row of the order, and the requests on it. -/
structure RefundWorld (ι : Type) where
  billing : Books
  decision : Option Value
  intents : List RefundIntent
  holder : Option ι
  tasks : ι → RefundTask

variable {ι : Type} [DecidableEq ι]

variable (w : RefundWorld ι)

def RefundWorld.intentOf (key : String) : Option RefundIntent :=
  w.intents.find? fun intent => intent.idempotencyKey = key

/-- What a request finds once it has the row of the order: the intent it repeats, or that it may go on. -/
def RefundWorld.examine (request : RefundRequest) : Except PolicyError (RefundIntent ⊕ CheckedRefund) :=
  (checkRefundRequest request).bind fun checked =>
  match w.intentOf checked.idempotencyKey with
  | some existing => (replayRefund existing checked).map .inl
  | none => (checkRefundable w.decision w.billing.order.paymentState).map fun _ => .inr checked

/-- `CHECK(verified_paid_amount >= 0)`: no other row is written. -/
def PaymentsAdmitted (payments : List Payment) : Prop := ∀ p ∈ payments, 0 ≤ p.verifiedPaidAmount

def RefundWorld.advance (i : ι) (task : RefundTask) : RefundWorld ι :=
  { w with tasks := Function.update w.tasks i task }

def RefundWorld.finish (i : ι) : RefundWorld ι :=
  { w with holder := if w.holder = some i then none else w.holder
           tasks := Function.update w.tasks i .idle }

/-- The order as the activation sees it: `refundPending` is read from the intents. -/
def RefundWorld.order : Books :=
  { w.billing with refundPending := w.intents.any fun intent => intent.state = .pending }

def decideIntent (id : String) (state : RefundState) (intents : List RefundIntent) : List RefundIntent :=
  intents.map fun intent => if intent.id = id ∧ intent.counts then { intent with state := state } else intent

/-- One step on an order: a statement of a request, its commit or its end without one, a decision on an
intent, a call of the activation, or whatever else is written of the order and its payments. -/
inductive RefundStep (py : PyRuntime) (w : RefundWorld ι) : RefundWorld ι → Prop
  | lock (i : ι) (request : RefundRequest) (hidle : w.tasks i = .idle) (hfree : w.holder = none) :
      RefundStep py w { w.advance i (.locked request) with holder := some i }
  | examine (i : ι) (request : RefundRequest) (checked : CheckedRefund)
      (htask : w.tasks i = .locked request) (h : w.examine request = .ok (.inr checked)) :
      RefundStep py w (w.advance i (.examined checked))
  | replay (i : ι) (request : RefundRequest) (existing : RefundIntent)
      (htask : w.tasks i = .locked request) (h : w.examine request = .ok (.inl existing)) : RefundStep py w (w.finish i)
  | sumPaid (i : ι) (checked : CheckedRefund) (htask : w.tasks i = .examined checked) : RefundStep py w
        (w.advance i (.paid checked (paidAmount w.billing.order.id w.billing.payments)))
  | sumRefunds (i : ι) (checked : CheckedRefund) (paid : Int) (htask : w.tasks i = .paid checked paid) :
      RefundStep py w (w.advance i (.summed checked paid (refundedAmount w.intents)))
  | insert (i : ι) (checked : CheckedRefund) (paid refunded : Int) (id : String)
      (htask : w.tasks i = .summed checked paid refunded) (hbound : checkRefundBound paid refunded checked.amount = .ok ())
      (hreason : reasonAdmitted checked.reason = true) :
      RefundStep py w (w.advance i (.inserted checked (checked.intent id w.billing.order.revision)))
  | commit (i : ι) (checked : CheckedRefund) (intent : RefundIntent) (htask : w.tasks i = .inserted checked intent) :
      RefundStep py w { w.finish i with intents := w.intents ++ [intent] }
  | abort (i : ι) : RefundStep py w (w.finish i)
  | decide (id : String) (state : RefundState) : RefundStep py w { w with intents := decideIntent id state w.intents }
  | call (draws : Draws) (call : BillingCall) (s' : Books) (out : Outcome) (hfree : w.holder = none)
      (h : call.run py w.order draws = some (s', out)) (hcheck : PaymentsAdmitted s'.payments) :
      RefundStep py w { w with billing := s' }
  | elsewhere (s' : Books) (hid : s'.order.id = w.billing.order.id)
      (hpayments : w.billing.payments <+: s'.payments) (hcheck : PaymentsAdmitted s'.payments) :
      RefundStep py w { w with billing := s' }

inductive RefundRun (py : PyRuntime) (w : RefundWorld ι) : RefundWorld ι → Prop
  | start : RefundRun py w w
  | step {w' w'' : RefundWorld ι} (hrun : RefundRun py w w') (h : RefundStep py w' w'') : RefundRun py w w''

end Bidding.Billing
