import Bidding.Billing.Order

/-!
# The activation of an order

`BillingActivationService`: three calls write the payment, the activation and the order, each in one
transaction. A call that raises is `none`; its transaction is rolled back.
-/

namespace Bidding.Billing

open Foundations Usage

variable (py : PyRuntime)

variable (s : Books)

/-- `UPDATE billing_orders SET activation_state = ?, revision = revision + 1`. -/
def Books.setActivationState (state : ActivationState) : Books :=
  { s with order := { s.order with activationState := state, revision := s.order.revision + 1 } }

variable (draws : Draws)

def markReview (reason : String) (evidence : Option Fields) : Books :=
  let reasonCode := String.ofList (reason.toList.take 200)
  let row := match s.activation with
    | some row => { row with state := .reviewRequired, reasonCode := reasonCode }
    | none => ⟨draws.activationId, .reviewRequired, none, .empty, none, none, reasonCode⟩
  let row := match evidence with
    | some fields => { row with after := .evidence fields }
    | none => row
  { s with activation := some row }.setActivationState .reviewRequired

/-- `_mark_review(order, reason)`, with its outcome. -/
def review (reason : String) : Option (Books × Outcome) :=
  some (markReview s draws reason none, .reviewRequired reason)

/-- `_mark_applied(order, before, after)`, where `order` is the row read before. -/
def markApplied (order : Order) (draws : Draws) (before : Option Subscription) (after : AfterJson) : Books :=
  let row := match s.activation with
    | some row =>
      { row with state := .applied, before := before, after := after,
                 appliedRevision := some (order.revision + 1), reasonCode := "APPLIED" }
    | none =>
      ⟨draws.activationId, .applied, before, after, order.expectedSubscriptionRevision, some (order.revision + 1), "APPLIED"⟩
  { s with activation := some row }.setActivationState .applied

def scheduleRenewal (current : Subscription) (renewal : Scheduled) (expectedRevision : Int) : Books :=
  let row := match s.activation with
    | some row =>
      { row with state := .pending, before := some current, after := .scheduled renewal,
                 expectedRevision := some expectedRevision, reasonCode := "RENEWAL_SCHEDULED" }
    | none =>
      ⟨draws.activationId, .pending, some current, .scheduled renewal, some expectedRevision, none, "RENEWAL_SCHEDULED"⟩
  { s with activation := some row }.setActivationState .pending

/-- The update of a verified payment. -/
def markPaid : Books :=
  { s with order := { s.order with
      paymentState := if s.order.paymentState.isRefund then s.order.paymentState else .verifiedPaid
      activationState :=
        if s.order.activationState ∈ [.applied, .reversed] then s.order.activationState else .pending
      revision := s.order.revision + 1 } }

/-- `_event_state(event_id, state, error)`. -/
def setEventState (eventId : String) (status : EventStatus) (error : Option String) : Books :=
  match s.events.get? eventId with
  | some event => { s with events := s.events.set eventId { event with status := status, lastErrorCode := error } }
  | none => s

def recordPaymentProgress (result : ProviderResult) : Books :=
  match mergePaymentProgress py s.order.checkoutPayment result s.order.totalAmount with
  | none => s
  | some progress =>
    if s.order.checkoutPayment = some progress then s
    else
      { s with order := { s.order with
          checkoutPayment := some progress, revision := s.order.revision + 1 } }

variable (providerProfileId transactionId : String)

def Books.paymentOf : Option Payment :=
  s.payments.find? fun p => p.providerProfileId = providerProfileId ∧ p.providerTransactionId = transactionId

/-- The mismatch `_insert_or_validate_payment` finds with the row of the identity. -/
def paymentMismatch (amount : Int) : Option String :=
  match s.paymentOf providerProfileId transactionId with
  | none => none
  | some existing =>
    if existing.orderId ≠ s.order.id then some "PAYMENT_TRANSACTION_ORDER_MISMATCH"
    else if existing.status ≠ "verified" ∨ existing.verifiedPaidAmount ≠ amount ∨
        existing.currency ≠ s.order.currency then some "PAYMENT_TRANSACTION_EVIDENCE_MISMATCH"
    else none

/-- The insert of `_insert_or_validate_payment`; nothing where the identity has a row. -/
def insertPayment (amount : Int) (timing : String) (occurredAt : Int) : Books :=
  match s.paymentOf providerProfileId transactionId with
  | some _ => s
  | none =>
    { s with payments := s.payments ++ [⟨draws.paymentId, s.order.id, providerProfileId, transactionId,
        "verified", amount, s.order.currency, timing, some occurredAt⟩] }

variable (order : Order)

def paymentTiming (occurred : Int) : String :=
  let expiry := order.checkoutExpiresAt.getD 0
  if order.checkoutState = .cancelled then "late_after_cancel"
  else if expiry ≠ 0 ∧ expiry < occurred then "late_after_expiry"
  else "on_time"

/-! ## The benefit -/

/-- `if not x`, for an id or a time that may be missing. -/
def Subscription.isActive (current : Subscription) (now : Int) : Bool :=
  current.status = "active" && current.expiresAt.all fun expiry => expiry = 0 || now < expiry

/-- `transition_review_reason(operation, "base_plan", policy, current, now)`. -/
def transitionReviewReason (operation : Operation) (policy : PolicySnapshot) (current : Option Subscription)
    (now : Int) : Option String :=
  let active := current.any fun current => current.isActive now
  let ruled (rule : Option TransitionRule) (selfServiceOnly : Bool) : Option String :=
    match rule with
    | none => some "PLAN_TRANSITION_REVIEW_REQUIRED"
    | some rule =>
      if rule.kind ≠ some "start_new_term" then some "PLAN_TRANSITION_REVIEW_REQUIRED"
      else if selfServiceOnly && !rule.selfService then some "PLAN_TRANSITION_REVIEW_REQUIRED"
      else if active && rule.activeTerm ≠ some "start_new_term" then
        some "ACTIVE_TERM_REQUIRES_TRANSITION_REVIEW"
      else none
  match operation with
  | .creditPack => some "PRODUCT_OPERATION_MISMATCH"
  | .purchase => if active then some "ACTIVE_TERM_REQUIRES_TRANSITION_REVIEW" else none
  | .renew => none
  | .upgrade => ruled policy.upgrade false
  | .downgrade => ruled policy.downgrade true

variable (item : OrderItem)

variable (benefits : Benefits)

def writeSubscription (packageId : String) (startsAt expiresAt : Int) : Option Subscription :=
  let revision := match s.subscription with
    | some current => current.revision + 1
    | none => 1
  let row (memberQuota : Option Int) : Subscription :=
    ⟨packageId, item.planVersionId, some order.id, "active", some startsAt, some expiresAt, memberQuota, revision⟩
  match order.owner.kind with
  | .account => some (row none)
  | .organization =>
    ((item.memberQuota.orElse benefits.memberQuota).orElse (.int 1)).toInt.map fun quota => row (some quota)

/-- The credits a plan includes. -/
def grantIncluded (draws : Draws) (startsAt expiresAt : Int) : Option UsageTables :=
  (((item.includedProcurementQuota.orElse benefits.includedProcurementQuota).orElse (.int 0)).toInt).bind fun quota =>
  if 0 < quota then
    (Usage.grant s.credits order.owner quota "plan" order.releaseId
      (item.snapshot.releaseChecksum.orElse order.decision.releaseChecksum).text startsAt expiresAt
      (some item.id) draws.grantId).toOption
  else some s.credits

/-- The end of `_activate_order`: the term is written and the activation is applied. -/
def applyTerm (packageId : String) (draws : Draws) (startsAt expiresAt : Int) : Option (Books × Outcome) :=
  (writeSubscription s order item benefits packageId startsAt expiresAt).bind fun subscription =>
  (grantIncluded s order item benefits draws startsAt expiresAt).map fun credits =>
  (markApplied { s with subscription := some subscription, credits := credits,
                        benefits := s.benefits ++ [.term startsAt expiresAt] }
    order draws s.subscription (.term startsAt expiresAt item.planVersionId), .applied)

def applyCreditPack (draws : Draws) : Option (Books × Outcome) :=
  let now := draws.clockTerm
  if !s.subscription.any (·.isActive now) then review s draws "BASE_SUBSCRIPTION_REQUIRED"
  else
    let expiry := benefits.expiryDays.toInt.getD 0
    if expiry ≤ 0 then review s draws "CREDIT_PACK_EXPIRY_INVALID"
    else
      ((benefits.procurementCredits.orElse (.int item.quantity)).toInt).bind fun quantity =>
      if quantity ≤ 0 then review s draws "CREDIT_PACK_QUANTITY_INVALID"
      else
        ((Usage.grant s.credits order.owner quantity "purchase" order.releaseId
          item.snapshot.releaseChecksum.text now (now + expiry * 86400) (some item.id)
          draws.grantId).toOption).map fun credits =>
        (markApplied { s with credits := credits,
                              benefits := s.benefits ++ [.credits quantity (now + expiry * 86400)] }
          order draws none (.credits quantity (now + expiry * 86400)), .applied)

/-- Where the renewals in front of an order end: the start, the revision that follows, and the last of
them. -/
def behindQueued (startsAt revision : Int) (queued : List QueuedRenewal) : Option (Int × Int × Option QueuedRenewal) :=
  queued.foldlM (fun (acc : Int × Int × Option QueuedRenewal) renewal =>
    renewal.expectedRevision.map fun expected =>
      (max acc.1 renewal.after.expiresAt, max acc.2.1 (expected + 1), some renewal))
    (startsAt, revision, none)

/-- The renewal branch of `_activate_order`. -/
def renewTerm (policy : PolicySnapshot) (packageId : String) (days : Int) (draws : Draws) : Option (Books × Outcome) :=
  if policy.renewalAnchor ≠ some "end_of_term" then review s draws "RENEWAL_ANCHOR_DECISION_REQUIRED"
  else
    match s.subscription with
    | none => review s draws "RENEWAL_BASE_SUBSCRIPTION_REQUIRED"
    | some current =>
      if current.status ∉ ["active", "expired"] ∨ current.expiresAt.getD 0 = 0 then
        review s draws "RENEWAL_BASE_SUBSCRIPTION_REQUIRED"
      else if !current.planVersionId.any fun plan => plan ≠ "" && s.sameLogicalPlan plan item.planVersionId then
        review s draws "RENEWAL_PLAN_TRANSITION_REVIEW_REQUIRED"
      else
        match s.payments.find? fun p => p.orderId = order.id ∧ p.status = "verified" with
        | none => review s draws "RENEWAL_PAYMENT_TIME_REQUIRED"
        | some payment =>
          if payment.occurredAt.getD 0 = 0 then review s draws "RENEWAL_PAYMENT_TIME_REQUIRED"
          else
            (behindQueued (max (payment.occurredAt.getD 0) (current.expiresAt.getD 0)) current.revision
              s.queuedRenewals).bind fun behind =>
            let expiresAt := behind.1 + days * 86400
            if draws.clockTerm < behind.1 then
              let renewal : Scheduled :=
                { startsAt := behind.1, expiresAt := expiresAt, planVersionId := item.planVersionId
                  expectedPlanVersionId := match behind.2.2 with
                    | some predecessor => predecessor.after.planVersionId
                    | none => current.planVersionId
                  expectedSourceOrderId := match behind.2.2 with
                    | some predecessor => some predecessor.orderId
                    | none => current.sourceOrderId }
              some (scheduleRenewal s draws current renewal behind.2.1, .scheduled renewal)
            else applyTerm s order item benefits packageId draws behind.1 expiresAt

/-- The base plan branch of `_activate_order`. -/
def activateTerm (due : Option Scheduled) (draws : Draws) : Option (Books × Outcome) :=
  let policy := (item.snapshot.policySnapshot <|> order.decision.policySnapshot).getD .empty
  match transitionReviewReason order.operation policy s.subscription draws.clockTransition with
  | some reason => review s draws reason
  | none =>
    let period := (item.snapshot.pricePeriod <|> order.decision.pricePeriod).getD "yearly"
    let termPolicy := if period = "monthly" then policy.monthlyBaseTerm else policy.baseTerm
    match termPolicy with
    | none => review s draws "BASE_TERM_DECISION_REQUIRED"
    | some term =>
      if term.kind ∈ [none, some "blocked_decision", some "calendar_anniversary"] then
        review s draws "BASE_TERM_DECISION_REQUIRED"
      else if item.legacyPackageId.getD "" = "" then review s draws "PLAN_PACKAGE_MAPPING_MISSING"
      else if term.kind ≠ some "fixed_days" then review s draws "BASE_TERM_UNSUPPORTED"
      else
        ((term.days.orElse (.int 0)).toInt).bind fun days =>
        if days ≤ 0 then review s draws "BASE_TERM_INVALID"
        else
          let now := draws.clockTerm
          let packageId := item.legacyPackageId.getD ""
          match due with
          | some renewal =>
            if now < renewal.startsAt then some (s, .scheduled renewal)
            else if !s.subscription.any fun current => current.status = "active" &&
                current.planVersionId = renewal.expectedPlanVersionId &&
                current.sourceOrderId = renewal.expectedSourceOrderId then
              review s draws "RENEWAL_PREDECESSOR_MISMATCH"
            else applyTerm s order item benefits packageId draws renewal.startsAt renewal.expiresAt
          | none =>
            if order.operation = .renew then renewTerm s order item benefits policy packageId days draws
            else if order.operation = .purchase ∧ s.subscription.any (·.isActive now) then
              review s draws "ACTIVE_TERM_REQUIRES_TRANSITION_REVIEW"
            else applyTerm s order item benefits packageId draws now (now + days * 86400)

/-- The renewal an order waits with: `is_scheduled`. -/
def dueRenewal : Option Scheduled :=
  s.activation.bind fun row =>
    match row.state, row.after with
    | .pending, .scheduled renewal => some renewal
    | _, _ => none

def expectedRevision (s : Books) (order : Order) : Option Int :=
  if (dueRenewal s).isSome then s.activation.bind Activation.expectedRevision
  else order.expectedSubscriptionRevision

/-- `_activate_order(order)`, where `order` is the row read before. -/
def activateLocked (draws : Draws) : Option (Books × Outcome) :=
  if order.activationState = .reversed then some (s, .reversed)
  else if order.paymentState.isRefund ∨ s.refundPending then
    some (s, .reviewRequired "PAYMENT_REFUND_REVIEW_REQUIRED")
  else if s.activation.any fun row => row.state = .applied then some (s, .applied)
  else if !s.ownerActive then review s draws "OWNER_INACTIVE"
  else
    match s.item with
    | none => review s draws "ORDER_ITEM_MISSING"
    | some item =>
      let benefits := (item.snapshot.benefits <|> order.decision.benefits).getD .empty
      if (expectedRevision s order).any fun revision =>
          !s.subscription.any fun current => current.revision = revision then
        match dueRenewal s with
        | some renewal =>
          if draws.clockDue < renewal.startsAt then some (s, .scheduled renewal)
          else review s draws "SUBSCRIPTION_REVISION_MISMATCH"
        | none => review s draws "SUBSCRIPTION_REVISION_MISMATCH"
      else if item.snapshot.itemType = some "procurement_credit_pack" then
        applyCreditPack s order item benefits draws
      else activateTerm s order item benefits (dueRenewal s) draws

def activateOrder : Option (Books × Outcome) :=
  if s.order.activationState = .applied then some (s, .applied)
  else if s.order.paymentState ≠ .verifiedPaid then some (s, .reviewRequired "PAYMENT_NOT_VERIFIED")
  else activateLocked s s.order draws

/-- What both calls do with a payment whose time is known: the payment is recorded, and an order paid
in time is activated, by the row as it was read, with its revision then. -/
def settlePayment (amount : Int) (occurredAt : Int) (revision : Int) : Option (Books × Outcome) :=
  match paymentMismatch s providerProfileId transactionId amount with
  | some reason => review s draws reason
  | none =>
    let timing := paymentTiming s.order occurredAt
    let paid := markPaid (insertPayment s draws providerProfileId transactionId amount timing occurredAt)
    if timing ≠ "on_time" then review paid draws "LATE_PAYMENT_REVIEW_REQUIRED"
    else activateLocked paid { s.order with revision := revision } draws

def applyOrderResult (result : ProviderResult) (providerProfileId : String) : Option (Books × Outcome) :=
  let status := py.text.upper (result.status.orElse (.str "")).text
  result.paidAmount.bind fun amount =>
  ((result.orderCode.orElse (.int s.order.providerOrderCode)).toInt).bind fun orderCode =>
  if orderCode ≠ s.order.providerOrderCode then review s draws "PROVIDER_ORDER_CODE_MISMATCH"
  else
    let revision := s.order.revision
    let s := recordPaymentProgress py s result
    if status ∈ paidStatuses ∧ amount ≠ s.order.totalAmount then review s draws "PAYMENT_AMOUNT_MISMATCH"
    else if status ∉ paidStatuses then some (s, .notPaid status)
    else
      match parseProviderTransactionTime py result with
      | .error reason => some (markReview s draws reason (some (timestampReviewEvidence result)), .reviewRequired reason)
      | .ok occurredAt =>
        settlePayment s draws providerProfileId (result.transactionId s.order.providerOrderCode) amount occurredAt revision

/-- What `apply_verified` does with an event of the order: the state it leaves, and the status and the
error of the event. -/
def applyEvent (signed : SignedFields) (orderCode : Int)
    (result : ProviderResult) (providerProfileId : String) : Option (Books × Outcome) :=
  let status := py.text.upper ((result.status.orElse signed.status).orElse (.str "")).text
  result.paidAmount.bind fun amount =>
  ((result.orderCode.orElse (.int orderCode)).toInt).bind fun resultCode =>
  if resultCode ≠ orderCode then review s draws "PROVIDER_ORDER_CODE_MISMATCH"
  else
    ((signed.amount.orElse (.int 0)).toInt).bind fun signedAmount =>
    if status ∈ paidStatuses ∧ signedAmount ≠ s.order.totalAmount then review s draws "WEBHOOK_AMOUNT_MISMATCH"
    else if signed.paymentLinkId.orEmptyText = "" ∨
        (result.paymentLinkId.orElse result.id).orEmptyText ≠ signed.paymentLinkId.orEmptyText then
      review s draws "PAYMENT_LINK_ID_MISMATCH"
    else
      let revision := s.order.revision
      let s := recordPaymentProgress py s result
      if status ∈ paidStatuses ∧ amount ≠ s.order.totalAmount then review s draws "PAYMENT_AMOUNT_MISMATCH"
      else if status ∉ paidStatuses ∨ amount < s.order.totalAmount then some (s, .notPaid status)
      else
        match parseProviderTransactionTime py result with
        | .error reason => some (markReview s draws reason (some (timestampReviewEvidence result)), .reviewRequired reason)
        | .ok occurredAt =>
          settlePayment s draws providerProfileId (result.transactionId orderCode) s.order.totalAmount occurredAt revision

def Outcome.eventState : Outcome → EventStatus × Option String
  | .reviewRequired reason => (.review, some reason)
  | _ => (.processed, none)

def applyVerified (eventId : String) (result : ProviderResult) (providerProfileId : String) : Option (Books × Outcome) :=
  match s.events.get? eventId with
  | none => some (s, .missing)
  | some event =>
    if event.status ∈ [.processed, .ignored, .dead] then some (s, .settled event.status)
    else
      ((event.signed.orderCode.orElse (.int 0)).toInt).bind fun orderCode =>
      if s.order.providerProfileId ≠ providerProfileId ∨ s.order.providerOrderCode ≠ orderCode then
        some (setEventState s eventId .review (some "ORDER_NOT_FOUND"), .reviewRequired "ORDER_NOT_FOUND")
      else
        (applyEvent py s draws event.signed orderCode result providerProfileId).map fun applied =>
          let state := applied.2.eventState
          (setEventState applied.1 eventId state.1 state.2, applied.2)

end Bidding.Billing
