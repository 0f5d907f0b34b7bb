import Bidding.Billing.Activation

/-!
# Exactly one activation

An order whose activation is applied has been given one benefit. A call keeps it applied exactly
where the call does not dispute the payment: a disputed call writes `review_required` over the applied
row, and a later call may give the benefit again.
-/

namespace Bidding.Billing

open Foundations Usage Option

variable {py : PyRuntime} {s s' : Books} {draws : Draws} {out : Outcome} {providerProfileId : String}
  {s'' : Books}
  {reason : String}
  {evidence : Option Fields}
  {out' : Outcome}
  {order : Order}
  {item : OrderItem}
  {benefits : Benefits}
  {packageId : String}
  {amount occurredAt revision : Int}
  {result : ProviderResult}
  {signed : SignedFields}
  {orderCode : Int} {transactionId : String}

def Books.rowApplied (s : Books) : Bool := s.activation.any fun row => row.state = .applied

/-- The activation is applied, by its row and by the order. -/
structure Applied (s : Books) : Prop where
  row : s.rowApplied = true
  order : s.order.activationState = .applied

/-- The activation is not applied, neither by its row nor by the order. -/
structure Idle (s : Books) : Prop where
  row : s.rowApplied = false
  order : s.order.activationState ≠ .applied

/-- What a call does with an order not applied: it stays so and is given nothing, or it is applied and
is given one benefit. -/
inductive Moves (s s' : Books) : Prop
  | idle (idle : Idle s') (kept : s'.benefits = s.benefits)
  | applied (applied : Applied s') (benefit : Benefit) (given : s'.benefits = s.benefits ++ [benefit])

/-- Everything the activation says is kept. -/
structure Keeps (s s' : Books) : Prop where
  activation : s'.activation = s.activation
  order : s'.order.activationState = s.order.activationState
  benefits : s'.benefits = s.benefits

theorem Keeps.rowApplied (h : Keeps s s') : s'.rowApplied = s.rowApplied := by
  rw [Books.rowApplied, h.activation, Books.rowApplied]

theorem Keeps.applied_iff (h : Keeps s s') : Applied s' ↔ Applied s := by
  constructor
  · exact fun ha => ⟨h.rowApplied ▸ ha.row, h.order ▸ ha.order⟩
  · exact fun ha => ⟨h.rowApplied.trans ha.row, h.order.trans ha.order⟩

theorem Keeps.idle (h : Keeps s s') (hi : Idle s) : Idle s' :=
  ⟨h.rowApplied.trans hi.row, h.order ▸ hi.order⟩

theorem Keeps.moves (h : Keeps s s') (hm : Moves s' s'') : Moves s s'' := by
  cases hm with
  | idle hidle hkept => exact .idle hidle (hkept.trans h.benefits)
  | applied happlied b hgiven => exact .applied happlied b (hgiven.trans (by rw [h.benefits]))

theorem Idle.not_applied (h : Idle s) : ¬ Applied s := fun ha => h.order ha.order

theorem markReview_idle (s : Books) (draws : Draws) (reason : String) (evidence : Option Fields) :
    Idle (markReview s draws reason evidence) := by
  refine ⟨?_, by simp [markReview, Books.setActivationState]⟩
  unfold markReview
  cases s.activation <;> cases evidence <;> simp [Books.rowApplied, Books.setActivationState]

theorem markReview_benefits (s : Books) (draws : Draws) (reason : String) (evidence : Option Fields) :
    (markReview s draws reason evidence).benefits = s.benefits := rfl

theorem markReview_moves (h : some (markReview s draws reason evidence, out') = some (s', out)) : Moves s s' := by
  obtain rfl := congrArg Prod.fst (some.inj h)
  exact .idle (markReview_idle s draws reason evidence) rfl

theorem review_moves (h : review s draws reason = some (s', out)) : Moves s s' :=
  markReview_moves h

theorem markApplied_applied (s : Books) (order : Order) (draws : Draws) (before : Option Subscription)
    (after : AfterJson) : Applied (markApplied s order draws before after) := by
  refine ⟨?_, rfl⟩
  unfold markApplied
  cases s.activation <;> simp [Books.rowApplied, Books.setActivationState]

theorem scheduleRenewal_idle (s : Books) (draws : Draws) (current : Subscription) (renewal : Scheduled)
    (expectedRevision : Int) : Idle (scheduleRenewal s draws current renewal expectedRevision) := by
  refine ⟨?_, by simp [scheduleRenewal, Books.setActivationState]⟩
  unfold scheduleRenewal
  cases s.activation <;> simp [Books.rowApplied, Books.setActivationState]

theorem recordPaymentProgress_keeps (py : PyRuntime) (s : Books) (result : ProviderResult) :
    Keeps s (recordPaymentProgress py s result) := by
  unfold recordPaymentProgress
  split
  · exact ⟨rfl, rfl, rfl⟩
  · split <;> exact ⟨rfl, rfl, rfl⟩

theorem insertPayment_keeps (s : Books) (draws : Draws) (providerProfileId transactionId : String)
    (amount : Int) (timing : String) (occurredAt : Int) :
    Keeps s (insertPayment s draws providerProfileId transactionId amount timing occurredAt) := by
  unfold insertPayment
  split <;> exact ⟨rfl, rfl, rfl⟩

theorem setEventState_keeps (s : Books) (eventId : String) (status : EventStatus) (error : Option String) :
    Keeps s (setEventState s eventId status error) := by
  unfold setEventState
  split <;> exact ⟨rfl, rfl, rfl⟩

theorem markPaid_idle (h : Idle s) : Idle (markPaid s) := by
  refine ⟨h.row, ?_⟩
  unfold markPaid
  simp only
  split
  · exact h.order
  · simp

theorem markPaid_keeps (h : Applied s) : Keeps s (markPaid s) :=
  ⟨rfl, by simp [markPaid, h.order], rfl⟩

/-! ## An order not applied -/

theorem applyTerm_moves
    {startsAt expiresAt : Int}
    (h : applyTerm s order item benefits packageId draws startsAt expiresAt = some (s', out)) :
    Moves s s' := by
  obtain ⟨subscription, -, hrest⟩ := bind_eq_some_iff.mp h
  obtain ⟨credits, -, hout⟩ := map_eq_some_iff.mp hrest
  obtain rfl := congrArg Prod.fst hout
  exact .applied (markApplied_applied _ order draws _ _) (.term startsAt expiresAt) rfl

theorem applyCreditPack_moves (h : applyCreditPack s order item benefits draws = some (s', out)) : Moves s s' := by
  unfold applyCreditPack at h
  simp only at h
  split at h
  · exact review_moves h
  split at h
  · exact review_moves h
  obtain ⟨quantity, -, hgrant⟩ := bind_eq_some_iff.mp h
  split at hgrant
  · exact review_moves hgrant
  · obtain ⟨credits, -, hout⟩ := map_eq_some_iff.mp hgrant
    obtain rfl := congrArg Prod.fst hout
    exact .applied (markApplied_applied _ order draws _ _) (.credits quantity _) rfl

theorem renewTerm_moves
    {policy : PolicySnapshot} {days : Int}
    (h : renewTerm s order item benefits policy packageId days draws = some (s', out)) : Moves s s' := by
  unfold renewTerm at h
  split at h
  · exact review_moves h
  split at h
  · exact review_moves h
  split at h
  · exact review_moves h
  split at h
  · exact review_moves h
  split at h
  · exact review_moves h
  split at h
  · exact review_moves h
  obtain ⟨behind, -, hbehind⟩ := bind_eq_some_iff.mp h
  simp only at hbehind
  split at hbehind
  · obtain rfl := congrArg Prod.fst (some.inj hbehind)
    exact .idle (scheduleRenewal_idle s draws _ _ _) rfl
  · exact applyTerm_moves hbehind

section

variable (hidle : Idle s)
include hidle

theorem activateTerm_moves
    {due : Option Scheduled} (h : activateTerm s order item benefits due draws = some (s', out)) :
    Moves s s' := by
  unfold activateTerm at h
  simp only at h
  split at h
  · exact review_moves h
  split at h
  · exact review_moves h
  split at h
  · exact review_moves h
  split at h
  · exact review_moves h
  split at h
  · exact review_moves h
  obtain ⟨days, -, hdays⟩ := bind_eq_some_iff.mp h
  split at hdays
  · exact review_moves hdays
  split at hdays
  -- A renewal that was scheduled.
  · split at hdays
    · obtain rfl := congrArg Prod.fst (some.inj hdays)
      exact .idle hidle rfl
    · split at hdays
      · exact review_moves hdays
      · exact applyTerm_moves hdays
  · split at hdays
    · exact renewTerm_moves hdays
    · split at hdays
      · exact review_moves hdays
      · exact applyTerm_moves hdays

theorem activateLocked_moves (h : activateLocked s order draws = some (s', out)) : Moves s s' := by
  have hkept : ∀ {out'}, some (s, out') = some (s', out) → Moves s s' := by
    intro out' hsame
    obtain rfl := congrArg Prod.fst (some.inj hsame)
    exact .idle hidle rfl
  unfold activateLocked at h
  split at h
  · exact hkept h
  split at h
  · exact hkept h
  split at h
  · exact hkept h
  split at h
  · exact review_moves h
  split at h
  · exact review_moves h
  simp only at h
  split at h
  · split at h
    · split at h
      · exact hkept h
      · exact review_moves h
    · exact review_moves h
  · split at h
    · exact applyCreditPack_moves h
    · exact activateTerm_moves hidle h

theorem settlePayment_moves
    (h : settlePayment s draws providerProfileId transactionId amount occurredAt revision = some (s', out)) : Moves s s' := by
  unfold settlePayment at h
  split at h
  · exact review_moves h
  simp only at h
  generalize hinserted : insertPayment s draws providerProfileId transactionId amount _ occurredAt = inserted at h
  have hkeeps : Keeps s inserted := hinserted ▸ insertPayment_keeps s draws _ _ _ _ _
  have hpaid : Idle (markPaid inserted) := markPaid_idle (hkeeps.idle hidle)
  have hmoves : Moves (markPaid inserted) s' := by
    split at h
    · exact review_moves h
    · exact activateLocked_moves hpaid h
  cases hmoves with
  | idle hidle' hkept => exact .idle hidle' (hkept.trans hkeeps.benefits)
  | applied happlied b hgiven => exact .applied happlied b (hgiven.trans (by rw [← hkeeps.benefits]; rfl))

theorem applyOrderResult_moves (h : applyOrderResult py s draws result providerProfileId = some (s', out)) : Moves s s' := by
  obtain ⟨amount, -, hamount⟩ := bind_eq_some_iff.mp h
  obtain ⟨orderCode, -, hcode⟩ := bind_eq_some_iff.mp hamount
  split at hcode
  · exact review_moves hcode
  have hkeeps := recordPaymentProgress_keeps py s result
  refine hkeeps.moves ?_
  simp only at hcode
  split at hcode
  · exact review_moves hcode
  split at hcode
  · obtain rfl := congrArg Prod.fst (some.inj hcode)
    exact .idle (hkeeps.idle hidle) rfl
  · split at hcode
    · exact markReview_moves hcode
    · exact settlePayment_moves (hkeeps.idle hidle) hcode

theorem applyEvent_moves
    (h : applyEvent py s draws signed orderCode result providerProfileId = some (s', out)) : Moves s s' := by
  obtain ⟨amount, -, hamount⟩ := bind_eq_some_iff.mp h
  obtain ⟨resultCode, -, hcode⟩ := bind_eq_some_iff.mp hamount
  split at hcode
  · exact review_moves hcode
  obtain ⟨signedAmount, -, hsigned⟩ := bind_eq_some_iff.mp hcode
  split at hsigned
  · exact review_moves hsigned
  split at hsigned
  · exact review_moves hsigned
  have hkeeps := recordPaymentProgress_keeps py s result
  refine hkeeps.moves ?_
  simp only at hsigned
  split at hsigned
  · exact review_moves hsigned
  split at hsigned
  · obtain rfl := congrArg Prod.fst (some.inj hsigned)
    exact .idle (hkeeps.idle hidle) rfl
  · split at hsigned
    · exact markReview_moves hsigned
    · exact settlePayment_moves (hkeeps.idle hidle) hsigned

/-! ## The calls on an order -/

/-- A call on an order: a webhook event with the provider's answer, a query of the provider, or the
activation tried again. -/
inductive BillingCall where
  | webhook (eventId : String) (result : ProviderResult) (providerProfileId : String)
  | query (result : ProviderResult) (providerProfileId : String)
  | retry

def BillingCall.run (py : PyRuntime) (s : Books) (draws : Draws) : BillingCall → Option (Books × Outcome)
  | .webhook eventId result providerProfileId => applyVerified py s draws eventId result providerProfileId
  | .query result providerProfileId => applyOrderResult py s draws result providerProfileId
  | .retry => activateOrder s draws

/-- The time of the payment is not accepted, it came late, or its identity belongs to other money. -/
def PaymentDisputed (py : PyRuntime) (s : Books) (result : ProviderResult)
    (providerProfileId transactionId : String) (amount : Int) : Prop :=
  match parseProviderTransactionTime py result with
  | .error _ => True
  | .ok occurredAt =>
    (paymentMismatch s providerProfileId transactionId amount).isSome = true ∨
      paymentTiming s.order occurredAt ≠ "on_time"

/-- The provider's answer to a query disputes the payment of the order. -/
def ResultDisputed (py : PyRuntime) (s : Books) (result : ProviderResult) (providerProfileId : String) : Prop :=
  (∃ orderCode, (result.orderCode.orElse (.int s.order.providerOrderCode)).toInt = some orderCode ∧
      orderCode ≠ s.order.providerOrderCode) ∨
    (py.text.upper (result.status.orElse (.str "")).text ∈ paidStatuses ∧
      ∃ amount, result.paidAmount = some amount ∧ (amount ≠ s.order.totalAmount ∨
        PaymentDisputed py s result providerProfileId (result.transactionId s.order.providerOrderCode) amount))

/-- A webhook event of the order, or the provider's answer to it, disputes the payment. -/
def EventDisputed (py : PyRuntime) (s : Books) (signed : SignedFields) (orderCode : Int)
    (result : ProviderResult) (providerProfileId : String) : Prop :=
  (∃ resultCode, (result.orderCode.orElse (.int orderCode)).toInt = some resultCode ∧
      resultCode ≠ orderCode) ∨
    signed.paymentLinkId.orEmptyText = "" ∨
    (result.paymentLinkId.orElse result.id).orEmptyText ≠ signed.paymentLinkId.orEmptyText ∨
    (py.text.upper ((result.status.orElse signed.status).orElse (.str "")).text ∈ paidStatuses ∧
      ((∃ amount, (signed.amount.orElse (.int 0)).toInt = some amount ∧ amount ≠ s.order.totalAmount) ∨
        (∃ amount, result.paidAmount = some amount ∧ amount ≠ s.order.totalAmount) ∨
        PaymentDisputed py s result providerProfileId (result.transactionId orderCode) s.order.totalAmount))

/-- The call disputes the payment of the order. -/
def Disputed (py : PyRuntime) (s : Books) : BillingCall → Prop
  | .webhook eventId result providerProfileId =>
    ∃ event orderCode, s.events.get? eventId = some event ∧
      event.status ∉ [EventStatus.processed, .ignored, .dead] ∧
      (event.signed.orderCode.orElse (.int 0)).toInt = some orderCode ∧
      s.order.providerProfileId = providerProfileId ∧ s.order.providerOrderCode = orderCode ∧
      EventDisputed py s event.signed orderCode result providerProfileId
  | .query result providerProfileId => ResultDisputed py s result providerProfileId
  | .retry => False

/-- A call leaves an idle order so, or applies it with one benefit. -/
theorem run_moves {call : BillingCall} (h : call.run py s draws = some (s', out)) : Moves s s' := by
  have hkept : ∀ {out'}, some (s, out') = some (s', out) → Moves s s' := by
    intro out' hsame
    obtain rfl := congrArg Prod.fst (some.inj hsame)
    exact .idle hidle rfl
  cases call with
  | webhook eventId result providerProfileId =>
    unfold BillingCall.run applyVerified at h
    simp only at h
    split at h
    · exact hkept h
    split at h
    · exact hkept h
    obtain ⟨orderCode, -, hcode⟩ := bind_eq_some_iff.mp h
    split at hcode
    · obtain rfl := congrArg Prod.fst (some.inj hcode)
      have hkeeps := setEventState_keeps s eventId .review (some "ORDER_NOT_FOUND")
      exact .idle (hkeeps.idle hidle) hkeeps.benefits
    · obtain ⟨⟨s₁, out₁⟩, happly, hout⟩ := map_eq_some_iff.mp hcode
      obtain rfl := congrArg Prod.fst hout
      have hkeeps := setEventState_keeps s₁ eventId out₁.eventState.1 out₁.eventState.2
      cases applyEvent_moves hidle happly with
      | idle hidle' hsame => exact .idle (hkeeps.idle hidle') (hkeeps.benefits.trans hsame)
      | applied happlied b hgiven => exact .applied (hkeeps.applied_iff.mpr happlied) b (hkeeps.benefits.trans hgiven)
  | query result providerProfileId => exact applyOrderResult_moves hidle h
  | retry =>
    unfold BillingCall.run activateOrder at h
    simp only at h
    split at h
    · exact hkept h
    · split at h
      · exact hkept h
      · exact activateLocked_moves hidle h

end

/-! ## An applied order -/

/-- What a call does with an applied order: it is given nothing, and stays applied where the payment is
not disputed. -/
structure Stays (s s' : Books) (disputed : Prop) : Prop where
  benefits : s'.benefits = s.benefits
  applied_iff : Applied s' ↔ ¬ disputed

variable {disputed : Prop}

theorem Keeps.stays (h : Keeps s s') (hs : Stays s' s'' disputed) : Stays s s'' disputed :=
  ⟨hs.benefits.trans h.benefits, hs.applied_iff⟩

theorem Stays.congr {disputed' : Prop} (h : Stays s s' disputed) (hiff : disputed ↔ disputed') : Stays s s' disputed' :=
  ⟨h.benefits, h.applied_iff.trans (not_congr hiff)⟩

theorem markReview_stays (hdisputed : disputed)
    (h : some (markReview s draws reason evidence, out') = some (s', out)) : Stays s s' disputed := by
  obtain rfl := congrArg Prod.fst (some.inj h)
  refine ⟨rfl, fun ha => ?_, fun hnot => absurd hdisputed hnot⟩
  exact absurd ha (markReview_idle s draws reason evidence).not_applied

theorem review_stays (hdisputed : disputed) (h : review s draws reason = some (s', out)) : Stays s s' disputed :=
  markReview_stays hdisputed h

theorem kept_stays (ha : Applied s) (hdisputed : ¬ disputed) (h : some (s, out') = some (s', out)) : Stays s s' disputed := by
  obtain rfl := congrArg Prod.fst (some.inj h)
  exact ⟨rfl, fun _ => hdisputed, fun _ => ha⟩

theorem activateLocked_of_rowApplied (hrow : s.rowApplied = true)
    (h : activateLocked s order draws = some (s', out)) : s' = s := by
  unfold Books.rowApplied at hrow
  unfold activateLocked at h
  split at h
  · exact (congrArg Prod.fst (some.inj h)).symm
  · split at h
    · exact (congrArg Prod.fst (some.inj h)).symm
    · exact (congrArg Prod.fst (some.inj h)).symm

theorem settlePayment_stays (ha : Applied s)
    (h : settlePayment s draws providerProfileId transactionId amount occurredAt revision = some (s', out)) :
    Stays s s' ((paymentMismatch s providerProfileId transactionId amount).isSome = true ∨
      paymentTiming s.order occurredAt ≠ "on_time") := by
  unfold settlePayment at h
  split at h
  · rename_i reason hmismatch
    exact review_stays (.inl (by rw [hmismatch]; rfl)) h
  rename_i hmatch
  simp only at h
  have hkeeps := insertPayment_keeps s draws providerProfileId transactionId amount
    (paymentTiming s.order occurredAt) occurredAt
  have happlied := hkeeps.applied_iff.mpr ha
  have hpaid := markPaid_keeps happlied
  split at h
  · rename_i hlate
    exact hkeeps.stays (hpaid.stays (review_stays (.inr hlate) h))
  · rename_i honTime
    rw [ne_eq, not_not] at honTime
    rw [activateLocked_of_rowApplied (hpaid.applied_iff.mpr happlied).row h]
    refine hkeeps.stays (hpaid.stays ⟨rfl, fun _ => ?_, fun _ => hpaid.applied_iff.mpr happlied⟩)
    simp [hmatch, honTime]

theorem timed_stays (ha : Applied s)
    (herror : ∀ reason, parseProviderTransactionTime py result = .error reason →
      some (markReview s draws reason evidence, Outcome.reviewRequired reason) = some (s', out))
    (hok : ∀ occurredAt, parseProviderTransactionTime py result = .ok occurredAt →
      settlePayment s draws providerProfileId transactionId amount occurredAt revision = some (s', out)) :
    Stays s s' (PaymentDisputed py s result providerProfileId transactionId amount) := by
  unfold PaymentDisputed
  cases htime : parseProviderTransactionTime py result with
  | error reason => exact markReview_stays trivial (herror reason htime)
  | ok occurredAt => exact settlePayment_stays ha (hok occurredAt htime)

theorem recordPaymentProgress_order (py : PyRuntime) (s : Books) (result : ProviderResult) :
    ∃ checkoutPayment revision, recordPaymentProgress py s result =
      { s with order := { s.order with checkoutPayment := checkoutPayment, revision := revision } } := by
  unfold recordPaymentProgress
  split
  · exact ⟨s.order.checkoutPayment, s.order.revision, rfl⟩
  rename_i progress _
  split
  · exact ⟨s.order.checkoutPayment, s.order.revision, rfl⟩
  · exact ⟨some progress, s.order.revision + 1, rfl⟩

theorem applyOrderResult_stays (ha : Applied s) (h : applyOrderResult py s draws result providerProfileId = some (s', out)) :
    Stays s s' (ResultDisputed py s result providerProfileId) := by
  obtain ⟨amount, hamount, hrest⟩ := bind_eq_some_iff.mp h
  obtain ⟨orderCode, hcode, hbody⟩ := bind_eq_some_iff.mp hrest
  split at hbody
  · rename_i hother
    exact review_stays (.inl ⟨orderCode, hcode, hother⟩) hbody
  rename_i hsame
  rw [ne_eq, not_not] at hsame
  have hkeeps := recordPaymentProgress_keeps py s result
  have happlied := hkeeps.applied_iff.mpr ha
  obtain ⟨checkoutPayment, revision, hprogress⟩ := recordPaymentProgress_order py s result
  simp only at hbody
  rw [hprogress] at hbody hkeeps happlied
  refine hkeeps.stays ?_
  split at hbody
  · rename_i hamounts
    exact review_stays (.inr ⟨hamounts.1, amount, hamount, .inl hamounts.2⟩) hbody
  rename_i hamounts
  split at hbody
  · rename_i hunpaid
    refine kept_stays happlied ?_ hbody
    rintro (⟨code, hcode', hne⟩ | ⟨hpaid, -⟩)
    · exact hne ((mem_unique hcode hcode').symm.trans hsame)
    · exact hunpaid hpaid
  · rename_i hpaid
    rw [not_not] at hpaid
    have htotal : amount = s.order.totalAmount := by
      by_contra hne
      exact hamounts ⟨hpaid, hne⟩
    refine (timed_stays happlied (fun reason htime => by rwa [htime] at hbody)
      fun occurredAt htime => by rwa [htime] at hbody).congr ⟨fun hd => .inr ⟨hpaid, amount, hamount, .inr hd⟩, ?_⟩
    rintro (⟨code, hcode', hne⟩ | ⟨-, amount', hamount', hne | hd⟩)
    · exact absurd ((mem_unique hcode hcode').symm.trans hsame) hne
    · exact absurd ((mem_unique hamount hamount').symm.trans htotal) hne
    · obtain rfl := mem_unique hamount hamount'
      exact hd

theorem applyEvent_stays (ha : Applied s)
    (h : applyEvent py s draws signed orderCode result providerProfileId = some (s', out)) :
    Stays s s' (EventDisputed py s signed orderCode result providerProfileId) := by
  obtain ⟨amount, hamount, hrest⟩ := bind_eq_some_iff.mp h
  obtain ⟨resultCode, hcode, hbody⟩ := bind_eq_some_iff.mp hrest
  split at hbody
  · rename_i hother
    exact review_stays (.inl ⟨resultCode, hcode, hother⟩) hbody
  rename_i hsame
  rw [ne_eq, not_not] at hsame
  obtain ⟨signedAmount, hsigned, hchecks⟩ := bind_eq_some_iff.mp hbody
  split at hchecks
  · rename_i hamounts
    exact review_stays (.inr (.inr (.inr ⟨hamounts.1, .inl ⟨signedAmount, hsigned, hamounts.2⟩⟩))) hchecks
  rename_i hsignedTotal
  split at hchecks
  · rename_i hlink
    exact review_stays (.inr (hlink.imp_right fun hdiffers => .inl hdiffers)) hchecks
  rename_i hlink
  rw [not_or, ne_eq, not_not] at hlink
  have hkeeps := recordPaymentProgress_keeps py s result
  have happlied := hkeeps.applied_iff.mpr ha
  obtain ⟨checkoutPayment, revision, hprogress⟩ := recordPaymentProgress_order py s result
  simp only at hchecks
  rw [hprogress] at hchecks hkeeps happlied
  refine hkeeps.stays ?_
  -- With the code and the link accepted, only a paid event can dispute the payment.
  have hpaidOnly : EventDisputed py s signed orderCode result providerProfileId →
      py.text.upper ((result.status.orElse signed.status).orElse (.str "")).text ∈ paidStatuses ∧
        ((∃ amount, (signed.amount.orElse (.int 0)).toInt = some amount ∧ amount ≠ s.order.totalAmount) ∨
          (∃ amount, result.paidAmount = some amount ∧ amount ≠ s.order.totalAmount) ∨
          PaymentDisputed py s result providerProfileId (result.transactionId orderCode) s.order.totalAmount) := by
    rintro (⟨code, hcode', hne⟩ | hempty | hdiffers | hpaid)
    · exact absurd ((mem_unique hcode hcode').symm.trans hsame) hne
    · exact absurd hempty hlink.1
    · exact absurd hlink.2 hdiffers
    · exact hpaid
  split at hchecks
  · rename_i hamounts
    exact review_stays (.inr (.inr (.inr ⟨hamounts.1, .inr (.inl ⟨amount, hamount, hamounts.2⟩)⟩))) hchecks
  rename_i hamounts
  split at hchecks
  · rename_i hunpaid
    refine kept_stays happlied (fun hd => ?_) hchecks
    obtain ⟨hpaid, -⟩ := hpaidOnly hd
    rcases hunpaid with hunpaid | hless
    · exact hunpaid hpaid
    · exact hamounts ⟨hpaid, ne_of_lt hless⟩
  · rename_i hpaid
    rw [not_or, not_not] at hpaid
    have htotal : amount = s.order.totalAmount := by
      by_contra hne
      exact hamounts ⟨hpaid.1, hne⟩
    have hsignedAmount : signedAmount = s.order.totalAmount := by
      by_contra hne
      exact hsignedTotal ⟨hpaid.1, hne⟩
    refine (timed_stays happlied (fun reason htime => by rwa [htime] at hchecks)
      fun occurredAt htime => by rwa [htime] at hchecks).congr
      ⟨fun hd => .inr (.inr (.inr ⟨hpaid.1, .inr (.inr hd)⟩)), fun hd => ?_⟩
    obtain ⟨-, ⟨other, hother, hne⟩ | ⟨other, hother, hne⟩ | hd⟩ := hpaidOnly hd
    · exact absurd ((mem_unique hsigned hother).symm.trans hsignedAmount) hne
    · exact absurd ((mem_unique hamount hother).symm.trans htotal) hne
    · exact hd

/-- A call gives an applied order nothing, and it stays applied unless the payment is disputed. -/
theorem run_stays (ha : Applied s) {call : BillingCall} (h : call.run py s draws = some (s', out)) :
    Stays s s' (Disputed py s call) := by
  cases call with
  | webhook eventId result providerProfileId =>
    unfold BillingCall.run applyVerified at h
    simp only at h
    split at h
    · rename_i hmissing
      refine kept_stays ha ?_ h
      rintro ⟨event, -, hevent, -⟩
      rw [hmissing] at hevent
      exact absurd hevent (by simp)
    · rename_i event hevent
      split at h
      · rename_i hsettled
        refine kept_stays ha ?_ h
        rintro ⟨event', -, hevent', hopen, -⟩
        rw [hevent] at hevent'
        cases hevent'
        exact hopen hsettled
      · rename_i hopen
        obtain ⟨orderCode, hcode, hbody⟩ := bind_eq_some_iff.mp h
        split at hbody
        · rename_i hother
          obtain rfl := congrArg Prod.fst (some.inj hbody)
          have hkeeps := setEventState_keeps s eventId .review (some "ORDER_NOT_FOUND")
          refine ⟨hkeeps.benefits, fun _ => ?_, fun _ => hkeeps.applied_iff.mpr ha⟩
          rintro ⟨event', code, hevent', -, hcode', hprofile, hsame, -⟩
          rw [hevent] at hevent'
          cases hevent'
          rw [hcode] at hcode'
          cases hcode'
          exact hother.elim (fun hne => hne hprofile) fun hne => hne hsame
        · rename_i hsame
          rw [not_or, ne_eq, not_not, ne_eq, not_not] at hsame
          obtain ⟨⟨s₁, out₁⟩, happly, hout⟩ := map_eq_some_iff.mp hbody
          obtain rfl := congrArg Prod.fst hout
          have hkeeps := setEventState_keeps s₁ eventId out₁.eventState.1 out₁.eventState.2
          obtain ⟨hbenefits, hiff⟩ := applyEvent_stays ha happly
          refine ⟨hkeeps.benefits.trans hbenefits, hkeeps.applied_iff.trans (hiff.trans (not_congr ?_))⟩
          constructor
          · exact fun hd => ⟨event, orderCode, hevent, hopen, hcode, hsame.1, hsame.2, hd⟩
          · rintro ⟨event', code, hevent', -, hcode', -, -, hd⟩
            rw [hevent] at hevent'
            cases hevent'
            rw [hcode] at hcode'
            cases hcode'
            exact hd
  | query result providerProfileId => exact applyOrderResult_stays ha h
  | retry =>
    unfold BillingCall.run activateOrder at h
    simp only at h
    rw [if_pos ha.order] at h
    exact kept_stays ha id h

/-- A sequence of calls that commit, each in a state and with an argument that `P` allows. Between
them other transactions write whatever does not concern the activation of this order; a call that is
rolled back is no step. -/
inductive Run (py : PyRuntime) (P : Books → BillingCall → Prop) (s : Books) : Books → Prop
  | start : Run py P s s
  | call {s' s'' : Books} {draws : Draws} {call : BillingCall} {out : Outcome} (hrun : Run py P s s')
      (hallowed : P s' call) (h : call.run py s' draws = some (s'', out)) : Run py P s s''
  | elsewhere {s' s'' : Books} (hrun : Run py P s s') (h : Keeps s' s'') : Run py P s s''

def Unchallenged (py : PyRuntime) (s : Books) (call : BillingCall) : Prop :=
  s.rowApplied = true → ¬ Disputed py s call

/-- An order as the checkout leaves it. -/
structure Fresh (s : Books) : Prop where
  activation : s.activation = none
  order : s.order.activationState = .notReady
  benefits : s.benefits = []

inductive Sound (s : Books) : Prop
  | idle (idle : Idle s) (none : s.benefits = [])
  | applied (applied : Applied s) (benefit : Benefit) (one : s.benefits = [benefit])

theorem Fresh.sound (h : Fresh s) : Sound s :=
  .idle ⟨by simp [Books.rowApplied, h.activation], by simp [h.order]⟩ h.benefits

/-- A call that does not dispute an applied order keeps the books sound. -/
theorem Sound.step (hs : Sound s) {call : BillingCall} (hallowed : Unchallenged py s call)
    (h : call.run py s draws = some (s', out)) : Sound s' := by
  cases hs with
  | idle hidle hnone =>
    cases run_moves hidle h with
    | idle hidle' hkept => exact .idle hidle' (hkept.trans hnone)
    | applied happlied b hgiven => exact .applied happlied b (by rw [hgiven, hnone]; rfl)
  | applied happlied b hone =>
    obtain ⟨hbenefits, hiff⟩ := run_stays happlied h
    exact .applied (hiff.mpr (hallowed happlied.row)) b (hbenefits.trans hone)

/-- No run of unchallenged calls credits an order twice. -/
theorem Sound.run (hs : Sound s) (hrun : Run py (Unchallenged py) s s') : Sound s' := by
  induction hrun with
  | start => exact hs
  | call _ hallowed h ih => exact ih.step hallowed h
  | elsewhere _ hkeeps ih =>
    cases ih with
    | idle hidle hnone => exact .idle (hkeeps.idle hidle) (hkeeps.benefits.trans hnone)
    | applied happlied b hone => exact .applied (hkeeps.applied_iff.mpr happlied) b (hkeeps.benefits.trans hone)

theorem Applied.run (ha : Applied s) (hrun : Run py (Unchallenged py) s s') : Applied s' := by
  induction hrun with
  | start => exact ha
  | call _ hallowed h ih => exact (run_stays ih h).applied_iff.mpr (hallowed ih.row)
  | elsewhere _ hkeeps ih => exact hkeeps.applied_iff.mpr ih

/-- In every run in which no call disputes the payment after the activation is applied, the benefit of an order is given at most
once and an applied order stays applied; a call leaves it applied exactly where it does not dispute the payment. -/
theorem benefit_activated_once (hfresh : Fresh s) (hrun : Run py (Unchallenged py) s s') : s'.benefits.length ≤ 1 ∧
    (Applied s' → ∀ s'', Run py (Unchallenged py) s' s'' → Applied s'' ∧ s''.benefits = s'.benefits) ∧
    ∀ draws call s'' out, Applied s' → BillingCall.run py s' draws call = some (s'', out) →
      (Applied s'' ↔ ¬ Disputed py s' call) := by
  have hsound := hfresh.sound.run hrun
  refine ⟨?_, fun ha s'' hrest => ⟨ha.run hrest, ?_⟩, fun draws call s'' out ha h => (run_stays ha h).applied_iff⟩
  · cases hsound with
    | idle _ hnone => simp [hnone]
    | applied _ b hone => simp [hone]
  · cases hsound with
    | idle hidle _ => exact absurd ha hidle.not_applied
    | applied _ b hone =>
      induction hrest with
      | start => rfl
      | call hrest' hallowed h ih => exact (run_stays (ha.run hrest') h).benefits.trans ih
      | elsewhere _ hkeeps ih => exact hkeeps.benefits.trans ih

def samplePack : Books where
  order :=
    { id := "order-1", providerProfileId := "payos", providerOrderCode := 7
      owner := ⟨.account, "u1", by decide⟩, operation := .creditPack, releaseId := "release-1"
      decision := ⟨none, none, none, none, .none⟩, totalAmount := 100000, currency := "VND"
      checkoutState := .opened, paymentState := .unverified, activationState := .notReady
      checkoutPayment := none, checkoutExpiresAt := some 5000, expectedSubscriptionRevision := none
      revision := 1 }
  item := some ⟨"item-1", 1, none, none, .none, .none,
    ⟨some "procurement_credit_pack", some ⟨.none, .none, .int 10, .int 30⟩, none, none, .str (.ofList (List.replicate 64 '0'))⟩⟩
  activation := none
  payments := []
  events := .empty
  refundPending := false
  ownerActive := true
  subscription := some ⟨"pro", some "plan-1", none, "active", some 1, some 9000, none, 1⟩
  queuedRenewals := []
  sameLogicalPlan := fun _ _ => false
  credits := .empty
  benefits := []

def sampleAnswer (amountPaid : Int) : ProviderResult :=
  { status := .str "PAID", amountPaid := .int amountPaid, amount := .int 100000, orderCode := .int 7
    paymentLinkId := .str "link-7", id := .none, reference := .str "FT1", transactionDateTime := .int 2000
    createdAt := .none }

def sampleDraws (grantId : String) : Draws := ⟨"activation-1", "payment-1", grantId, 3000, 3000, 3000⟩

def Books.runAll (py : PyRuntime) (s : Books) (calls : List (Draws × BillingCall)) : Books :=
  calls.foldl (fun s call => ((call.2.run py s call.1).map Prod.fst).getD s) s

theorem run_runAll (py : PyRuntime) (s : Books) (calls : List (Draws × BillingCall)) :
    Run py (fun _ _ => True) s (s.runAll py calls) := by
  refine foldl_inv _ (Run py (fun _ _ => True) s) calls (fun s' call _ hrun => ?_) .start
  cases h : call.2.run py s' call.1 with
  | none => exact hrun
  | some result => exact .call hrun trivial h

theorem run_single {py : PyRuntime} {s : Books} {draws : Draws} {call : BillingCall} (h : (call.run py s draws).isSome = true) :
    ∃ out, call.run py s draws = some (s.runAll py [(draws, call)], out) := by
  obtain ⟨result, hresult⟩ := isSome_iff_exists.mp h
  exact ⟨result.2, by simp [Books.runAll, hresult]⟩

/-- The provider is asked twice, and neither answer disputes the payment. -/
theorem benefit_activated_once_sample : ∃ s s', Run .plain (Unchallenged .plain) samplePack s ∧ Applied s ∧
    s.benefits.length ≤ 1 ∧ Run .plain (Unchallenged .plain) s s' ∧ Applied s' ∧ s'.benefits = s.benefits := by
  let s := samplePack.runAll .plain [(sampleDraws "g1", .query (sampleAnswer 100000) "payos")]
  have happlied : Applied s := ⟨by decide, by decide⟩
  have hidle : ¬ samplePack.rowApplied = true := by decide
  obtain ⟨_, hpaid⟩ := @run_single .plain samplePack (sampleDraws "g1") (.query (sampleAnswer 100000) "payos") (by decide)
  have hrun : Run .plain (Unchallenged .plain) samplePack s := .call .start (fun ha => absurd ha hidle) hpaid
  obtain ⟨_, hagain⟩ := @run_single .plain s (sampleDraws "g2") (.query (sampleAnswer 100000) "payos") (by decide)
  have hcalm := (run_stays happlied hagain).applied_iff.mp ⟨by decide, by decide⟩
  have hrest : Run .plain (Unchallenged .plain) s _ := .call .start (fun _ => hcalm) hagain
  obtain ⟨hlength, hlater, -⟩ := benefit_activated_once ⟨rfl, rfl, rfl⟩ hrun
  exact ⟨s, _, hrun, happlied, hlength, hrest, hlater happlied _ hrest⟩

/-- An answer with another amount after the activation takes it out of the applied state, and the next
answer for the paid order gives the credits again. -/
theorem benefit_activated_twice :
    let calls := [(sampleDraws "g1", BillingCall.query (sampleAnswer 100000) "payos"),
      (sampleDraws "g2", .query (sampleAnswer 99999) "payos"), (sampleDraws "g3", .query (sampleAnswer 100000) "payos")]
    ∃ s₁ s₂ s₃, Fresh samplePack ∧ Run .plain (fun _ _ => True) samplePack s₁ ∧
      Run .plain (fun _ _ => True) s₁ s₂ ∧ Run .plain (fun _ _ => True) s₂ s₃ ∧
      s₃ = samplePack.runAll .plain calls ∧
      s₁.order.activationState = .applied ∧ s₂.order.activationState = .reviewRequired ∧
      s₃.benefits = [.credits 10 2595000, .credits 10 2595000] :=
  ⟨samplePack.runAll .plain [(sampleDraws "g1", .query (sampleAnswer 100000) "payos")],
    (samplePack.runAll .plain [(sampleDraws "g1", .query (sampleAnswer 100000) "payos")]).runAll .plain
      [(sampleDraws "g2", .query (sampleAnswer 99999) "payos")], _, ⟨rfl, rfl, rfl⟩,
    run_runAll .plain _ _, run_runAll .plain _ _, run_runAll .plain _ _, rfl, by decide, by decide, by decide⟩

end Bidding.Billing
