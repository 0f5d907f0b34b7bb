import Bidding.Billing.Provider
import Bidding.Usage.Service

/-!
# An order and its activation

A paid order is activated once: a plan gives its owner a subscription term, a credit pack gives
credits. The row of the activation and the order each carry the state of the activation.
-/

namespace Bidding.Billing

open Foundations Usage

inductive Operation where
  | purchase | renew | upgrade | downgrade | creditPack
  deriving DecidableEq

inductive CheckoutState where
  | creating | opened | createFailed | cancelled | expired
  deriving DecidableEq

inductive PaymentState where
  | unverified | verifiedPaid | refundPending | partiallyRefunded | refunded | refundFailed
  deriving DecidableEq

/-- `payment_state IN ('refund_pending', 'partially_refunded', 'refunded', 'refund_failed')`. -/
def PaymentState.isRefund (state : PaymentState) : Bool :=
  state ∈ [.refundPending, .partiallyRefunded, .refunded, .refundFailed]

inductive ActivationState where
  | notReady | pending | applied | retry | reviewRequired | reversed
  deriving DecidableEq

/-! ## What an order is pinned to -/

structure TermPolicy where
  kind : Option String
  days : Scalar

structure TransitionRule where
  kind : Option String
  selfService : Bool
  activeTerm : Option String

structure PolicySnapshot where
  baseTerm : Option TermPolicy
  monthlyBaseTerm : Option TermPolicy
  renewalAnchor : Option String
  upgrade : Option TransitionRule
  downgrade : Option TransitionRule

def PolicySnapshot.empty : PolicySnapshot := ⟨none, none, none, none, none⟩

structure Benefits where
  memberQuota : Scalar
  includedProcurementQuota : Scalar
  procurementCredits : Scalar
  expiryDays : Scalar

def Benefits.empty : Benefits := ⟨.none, .none, .none, .none⟩

/-- A pinned document: the snapshot of an order item, or the decision of the order. An entry that is
missing or empty is `none`; the period of a price is `yearly` unless it says otherwise. -/
structure Pinned where
  itemType : Option String
  benefits : Option Benefits
  policySnapshot : Option PolicySnapshot
  pricePeriod : Option String
  releaseChecksum : Scalar

/-- The first item of an order, with its plan. -/
structure OrderItem where
  id : String
  quantity : Int
  planVersionId : Option String
  legacyPackageId : Option String
  memberQuota : Scalar
  includedProcurementQuota : Scalar
  snapshot : Pinned

/-- The columns of `billing_orders` that the activation reads. -/
structure Order where
  id : String
  providerProfileId : String
  providerOrderCode : Int
  owner : UsageOwner
  operation : Operation
  releaseId : String
  decision : Pinned
  totalAmount : Int
  currency : String
  checkoutState : CheckoutState
  paymentState : PaymentState
  activationState : ActivationState
  checkoutPayment : Option Fields
  checkoutExpiresAt : Option Int
  expectedSubscriptionRevision : Option Int
  revision : Int

/-- A row of `account_subscriptions` or `organization_subscriptions`. -/
structure Subscription where
  packageId : String
  planVersionId : Option String
  sourceOrderId : Option String
  status : String
  startsAt : Option Int
  expiresAt : Option Int
  memberQuota : Option Int
  revision : Int

/-- A renewal that waits for its term. -/
structure Scheduled where
  startsAt : Int
  expiresAt : Int
  planVersionId : Option String
  expectedPlanVersionId : Option String
  expectedSourceOrderId : Option String

inductive AfterJson where
  | empty
  | scheduled (renewal : Scheduled)
  | term (startsAt expiresAt : Int) (planVersionId : Option String)
  | credits (quantity expiresAt : Int)
  | evidence (fields : Fields)

/-- A row of `billing_subscription_activations`. -/
structure Activation where
  id : String
  state : ActivationState
  before : Option Subscription
  after : AfterJson
  expectedRevision : Option Int
  appliedRevision : Option Int
  reasonCode : String

/-- A row of `payment_transactions` of type `payment`. -/
structure Payment where
  id : String
  orderId : String
  providerProfileId : String
  providerTransactionId : String
  status : String
  verifiedPaidAmount : Int
  currency : String
  timing : String
  occurredAt : Option Int
  deriving DecidableEq

inductive EventStatus where
  | pending | processing | retry | processed | dead | ignored | review
  deriving DecidableEq

/-- A row of `payment_webhook_events`. -/
structure WebhookEvent where
  signed : SignedFields
  status : EventStatus
  lastErrorCode : Option String

structure QueuedRenewal where
  after : Scheduled
  expectedRevision : Option Int
  orderId : String

/-- What an activation gave: a subscription term, with the credits the plan includes, or the credits
of a pack. -/
inductive Benefit where
  | term (startsAt expiresAt : Int)
  | credits (quantity expiresAt : Int)
  deriving DecidableEq

/-- The database, as far as one order is concerned. `benefits` is the history of what was given for
the order; the source keeps it in the subscription and grant rows it writes. -/
structure Books where
  order : Order
  item : Option OrderItem
  activation : Option Activation
  payments : List Payment
  events : Dict String WebhookEvent
  refundPending : Bool
  ownerActive : Bool
  subscription : Option Subscription
  queuedRenewals : List QueuedRenewal
  /-- Two plan versions of one logical package, owner kind, tier and variant. -/
  sameLogicalPlan : String → Option String → Bool
  credits : UsageTables
  benefits : List Benefit

/-- What a call gives back. -/
inductive Outcome where
  | missing
  | settled (status : EventStatus)
  | notPaid (providerStatus : String)
  | reviewRequired (reason : String)
  | scheduled (renewal : Scheduled)
  | applied
  | reversed

/-- The ids a call draws, and its readings of the clock: before a renewal that is due, for the
transition between plans, and for the term. -/
structure Draws where
  activationId : String
  paymentId : String
  grantId : String
  clockDue : Int
  clockTransition : Int
  clockTerm : Int

end Bidding.Billing
