import Bidding.Billing.Activation

/-!
# What a call can do

One inversion for each function of the activation: what the state is afterwards, with the checks that let it come about. A
call prepares the order, activates it or sends it to review, and settles the event.
-/

namespace Bidding.Billing

open Foundations Usage List Option

variable {py : PyRuntime} {s s' s'' : Books} {draws : Draws} {out : Outcome}

/-- A renewal starts where the current term and all the renewals that wait have ended. -/
structure Behind (s : Books) (current : Subscription) (renewal : Scheduled) (revision : Int) : Prop where
  afterCurrent : current.expiresAt.getD 0 ≤ renewal.startsAt
  afterQueued : ∀ q ∈ s.queuedRenewals, q.after.expiresAt ≤ renewal.startsAt
  nonempty : renewal.startsAt < renewal.expiresAt
  source : renewal.expectedSourceOrderId = match s.queuedRenewals.getLast? with
    | some predecessor => some predecessor.orderId
    | none => current.sourceOrderId

theorem behindQueued_spec {queued : List QueuedRenewal} {startsAt revision : Int}
    {behind : Int × Int × Option QueuedRenewal} (h : behindQueued startsAt revision queued = some behind) :
    startsAt ≤ behind.1 ∧ (∀ q ∈ queued, q.after.expiresAt ≤ behind.1) ∧ behind.2.2 = queued.getLast? := by
  induction queued using List.reverseRecOn generalizing behind with
  | nil =>
    cases h
    exact ⟨le_refl _, fun q hq => absurd hq not_mem_nil, rfl⟩
  | append_singleton queued q ih =>
    rw [behindQueued, foldlM_append] at h
    obtain ⟨before, hbefore, h⟩ := bind_eq_some_iff.mp h
    obtain ⟨hstarts, hqueued, -⟩ := ih hbefore
    rw [foldlM_cons] at h
    obtain ⟨last, hlast, h⟩ := bind_eq_some_iff.mp h
    cases h
    obtain ⟨expected, -, rfl⟩ := map_eq_some_iff.mp hlast
    refine ⟨le_trans hstarts (le_max_left _ _), fun q' hq' => ?_, by simp⟩
    rcases mem_append.mp hq' with hq' | hq'
    · exact le_trans (hqueued q' hq') (le_max_left _ _)
    · rw [mem_singleton.mp hq']
      exact le_max_right _ _

/-! ## The activation -/

def withTerm (s : Books) (order : Order) (draws : Draws) (subscription : Subscription)
    (credits : UsageTables) (startsAt expiresAt : Int) (planVersionId : Option String) : Books :=
  markApplied { s with subscription := some subscription, credits := credits,
                       benefits := s.benefits ++ [.term startsAt expiresAt] }
    order draws s.subscription (.term startsAt expiresAt planVersionId)

def Unapplied (s : Books) : Prop := (s.activation.any fun row => row.state = .applied) = false

/-- The subscription of a term that was written over another. -/
structure Replaces (s : Books) (order : Order) (subscription : Subscription) (startsAt expiresAt : Int) : Prop where
  source : subscription.sourceOrderId = some order.id
  status : subscription.status = "active"
  starts : subscription.startsAt = some startsAt
  expires : subscription.expiresAt = some expiresAt
  revision : ∀ current, s.subscription = some current → subscription.revision = current.revision + 1

/-- How the term of a renewal comes about: behind the others, or as it was scheduled, from the
subscription its predecessor has left. -/
inductive Origin (s : Books) (current : Subscription) (startsAt expiresAt : Int) : Prop
  | behind (renewal : Scheduled) (revision : Int) (hdue : dueRenewal s = none)
      (h : Behind s current renewal revision) (hstarts : startsAt = renewal.startsAt) (hexpires : expiresAt = renewal.expiresAt)
  | due (renewal : Scheduled) (hdue : dueRenewal s = some renewal)
      (hsource : current.sourceOrderId = renewal.expectedSourceOrderId) (hstatus : current.status = "active")
      (hrevision : ∀ revision, s.activation.bind Activation.expectedRevision = some revision →
        current.revision = revision) (hstarts : startsAt = renewal.startsAt) (hexpires : expiresAt = renewal.expiresAt)

/-- What `_activate_order` leaves. -/
inductive Activated (s : Books) (order : Order) (draws : Draws) : Books → Prop
  | kept : Activated s order draws s
  | reviewed (reason : String) : Activated s order draws (markReview s draws reason none)
  | queued (current : Subscription) (renewal : Scheduled) (revision : Int)
      (hcurrent : s.subscription = some current) (hdue : dueRenewal s = none)
      (hpaid : order.paymentState.isRefund = false) (hrow : Unapplied s) (h : Behind s current renewal revision) :
      Activated s order draws (scheduleRenewal s draws current renewal revision)
  | credits (tables : UsageTables) (quantity expiresAt : Int) :
      Activated s order draws (markApplied { s with
        credits := tables, benefits := s.benefits ++ [.credits quantity expiresAt] } order draws none
          (.credits quantity expiresAt))
  | term (subscription : Subscription) (tables : UsageTables) (startsAt expiresAt : Int)
      (planVersionId : Option String) (hrow : Unapplied s) (hsub : Replaces s order subscription startsAt expiresAt)
      (h : order.operation = .renew → ∃ current, s.subscription = some current ∧ Origin s current startsAt expiresAt) :
      Activated s order draws (withTerm s order draws subscription tables startsAt expiresAt planVersionId)

variable {order : Order} {reason : String} {out' : Outcome}

theorem Activated.of_review (h : review s draws reason = some (s', out)) : Activated s order draws s' := by
  obtain rfl := congrArg Prod.fst (some.inj h)
  exact .reviewed reason

theorem Activated.of_kept (h : some (s, out') = some (s', out)) : Activated s order draws s' := by
  obtain rfl := congrArg Prod.fst (some.inj h)
  exact .kept

variable {item : OrderItem}

variable {benefits : Benefits} {packageId : String} {startsAt expiresAt : Int} {result : ProviderResult} {providerProfileId : String}

theorem writeSubscription_replaces {subscription : Subscription}
    (h : writeSubscription s order item benefits packageId startsAt expiresAt = some subscription) :
    Replaces s order subscription startsAt expiresAt := by
  unfold writeSubscription at h
  simp only at h
  split at h
  · cases h
    exact ⟨rfl, rfl, rfl, rfl, fun current hcurrent => by simp [hcurrent]⟩
  · obtain ⟨quota, -, rfl⟩ := map_eq_some_iff.mp h
    exact ⟨rfl, rfl, rfl, rfl, fun current hcurrent => by simp [hcurrent]⟩

theorem Activated.of_applyTerm (h : applyTerm s order item benefits packageId draws startsAt expiresAt = some (s', out))
    (hrow : Unapplied s) (horigin : order.operation = .renew →
      ∃ current, s.subscription = some current ∧ Origin s current startsAt expiresAt) : Activated s order draws s' := by
  obtain ⟨subscription, hsubscription, hrest⟩ := bind_eq_some_iff.mp h
  obtain ⟨tables, -, hout⟩ := map_eq_some_iff.mp hrest
  obtain rfl := congrArg Prod.fst hout
  exact .term subscription tables startsAt expiresAt _ hrow (writeSubscription_replaces hsubscription) horigin

theorem Activated.of_applyCreditPack
    (h : applyCreditPack s order item benefits draws = some (s', out)) : Activated s order draws s' := by
  unfold applyCreditPack at h
  simp only at h
  split at h
  · exact .of_review h
  split at h
  · exact .of_review h
  obtain ⟨quantity, -, hgrant⟩ := bind_eq_some_iff.mp h
  split at hgrant
  · exact .of_review hgrant
  · obtain ⟨tables, -, hout⟩ := map_eq_some_iff.mp hgrant
    obtain rfl := congrArg Prod.fst hout
    exact .credits tables quantity _

theorem Activated.of_renewTerm
    {policy : PolicySnapshot} {days : Int} (hdays : 0 < days)
    (hdue : dueRenewal s = none) (hpaid : order.paymentState.isRefund = false) (hrow : Unapplied s)
    (h : renewTerm s order item benefits policy packageId days draws = some (s', out)) :
    Activated s order draws s' := by
  unfold renewTerm at h
  split at h
  · exact .of_review h
  split at h
  · exact .of_review h
  rename_i current hcurrent
  split at h
  · exact .of_review h
  split at h
  · exact .of_review h
  split at h
  · exact .of_review h
  rename_i payment _
  split at h
  · exact .of_review h
  obtain ⟨behind, hbehind, h⟩ := bind_eq_some_iff.mp h
  obtain ⟨hstarts, hqueued, hlast⟩ := behindQueued_spec hbehind
  simp only at h
  split at h
  · obtain rfl := congrArg Prod.fst (some.inj h)
    refine .queued current _ _ hcurrent hdue hpaid hrow ⟨?_, hqueued, ?_, ?_⟩
    · exact le_trans (le_max_right _ _) hstarts
    · simp only
      omega
    · generalize s.queuedRenewals.getLast? = last at hlast ⊢
      subst hlast
      cases behind.2.2 <;> rfl
  · refine .of_applyTerm h hrow fun _ => ⟨current, hcurrent, ?_⟩
    refine .behind
      { startsAt := behind.1, expiresAt := behind.1 + days * 86400
        planVersionId := none, expectedPlanVersionId := none
        expectedSourceOrderId := match s.queuedRenewals.getLast? with
          | some predecessor => some predecessor.orderId
          | none => current.sourceOrderId }
      behind.2.1 hdue ⟨?_, hqueued, ?_, rfl⟩ rfl rfl
    · exact le_trans (le_max_right _ _) hstarts
    · simp only
      omega

theorem Activated.of_activateTerm (hpaid : order.paymentState.isRefund = false) (hrow : Unapplied s)
    (hrevision : ∀ renewal, dueRenewal s = some renewal → ∀ revision,
      s.activation.bind Activation.expectedRevision = some revision →
        ∀ current, s.subscription = some current → current.revision = revision)
    (h : activateTerm s order item benefits (dueRenewal s) draws = some (s', out)) : Activated s order draws s' := by
  unfold activateTerm at h
  simp only at h
  split at h
  · exact .of_review h
  split at h
  · exact .of_review h
  split at h
  · exact .of_review h
  split at h
  · exact .of_review h
  split at h
  · exact .of_review h
  obtain ⟨days, -, h⟩ := bind_eq_some_iff.mp h
  split at h
  · exact .of_review h
  rename_i hdays
  split at h
  -- A renewal that was scheduled.
  · rename_i renewal hdue
    split at h
    · exact .of_kept h
    split at h
    · exact .of_review h
    rename_i hmatches
    refine .of_applyTerm h hrow fun _ => ?_
    cases hcurrent : s.subscription with
    | none => simp [hcurrent] at hmatches
    | some current =>
      simp [hcurrent] at hmatches
      refine ⟨current, rfl, .due renewal hdue hmatches.2 hmatches.1.1 ?_ rfl rfl⟩
      exact fun revision hr => hrevision renewal hdue revision hr current hcurrent
  · rename_i hdue
    split at h
    · exact .of_renewTerm (by omega) hdue hpaid hrow h
    rename_i hoperation
    split at h
    · exact .of_review h
    · exact .of_applyTerm h hrow fun hrenew => absurd hrenew hoperation

theorem activateLocked_activated (h : activateLocked s order draws = some (s', out)) : Activated s order draws s' := by
  unfold activateLocked at h
  split at h
  · exact .of_kept h
  split at h
  · exact .of_kept h
  rename_i hrefund
  split at h
  · exact .of_kept h
  rename_i hrow
  split at h
  · exact .of_review h
  split at h
  · exact .of_review h
  simp only at h
  split at h
  · split at h
    · split at h
      · exact .of_kept h
      · exact .of_review h
    · exact .of_review h
  · rename_i hexpected
    split at h
    · exact .of_applyCreditPack h
    · refine .of_activateTerm (by simpa using (not_or.mp hrefund).1) (Bool.eq_false_of_not_eq_true hrow) ?_ h
      intro renewal hdue revision hrevision current hcurrent
      simpa [expectedRevision, hdue, hrevision, hcurrent] using hexpected

/-! ## The calls -/

/-- What a call changes before it decides on the activation: the progress and the fact of the payment,
and the state of an order that is paid. -/
structure Prepared (s s' : Books) : Prop where
  id : s'.order.id = s.order.id
  operation : s'.order.operation = s.order.operation
  expected : s'.order.expectedSubscriptionRevision = s.order.expectedSubscriptionRevision
  activation : s'.activation = s.activation
  subscription : s'.subscription = s.subscription
  queued : s'.queuedRenewals = s.queuedRenewals
  benefits : s'.benefits = s.benefits
  payments : s.payments <+: s'.payments
  paid : s.order.paymentState = .verifiedPaid → s'.order.paymentState = .verifiedPaid
  pending : s'.order.activationState = s.order.activationState ∨ s'.order.activationState = .pending

theorem Prepared.refl (s : Books) : Prepared s s :=
  ⟨rfl, rfl, rfl, rfl, rfl, rfl, rfl, prefix_refl _, fun hp => hp, .inl rfl⟩

theorem Prepared.trans (h : Prepared s s') (h' : Prepared s' s'') : Prepared s s'' where
  id := h'.id.trans h.id
  operation := h'.operation.trans h.operation
  expected := h'.expected.trans h.expected
  activation := h'.activation.trans h.activation
  subscription := h'.subscription.trans h.subscription
  queued := h'.queued.trans h.queued
  benefits := h'.benefits.trans h.benefits
  payments := h.payments.trans h'.payments
  paid := fun hp => h'.paid (h.paid hp)
  pending := h'.pending.elim (fun he => h.pending.imp he.trans he.trans) .inr

theorem recordPaymentProgress_prepared (py : PyRuntime) (s : Books) (result : ProviderResult) :
    Prepared s (recordPaymentProgress py s result) := by
  unfold recordPaymentProgress
  split
  · exact .refl s
  · split
    · exact .refl s
    · exact ⟨rfl, rfl, rfl, rfl, rfl, rfl, rfl, prefix_refl _, fun hp => hp, .inl rfl⟩

theorem insertPayment_prepared (s : Books) (draws : Draws) (providerProfileId transactionId : String)
    (amount : Int) (timing : String) (occurredAt : Int) :
    Prepared s (insertPayment s draws providerProfileId transactionId amount timing occurredAt) := by
  unfold insertPayment
  split
  · exact .refl s
  · exact ⟨rfl, rfl, rfl, rfl, rfl, rfl, rfl, prefix_append _ _, fun hp => hp, .inl rfl⟩

theorem markPaid_prepared (s : Books) : Prepared s (markPaid s) := by
  refine ⟨rfl, rfl, rfl, rfl, rfl, rfl, rfl, prefix_refl _, fun hp => ?_, ?_⟩
  · simp [markPaid, hp, PaymentState.isRefund]
  · simp only [markPaid]
    split
    · exact .inl rfl
    · exact .inr rfl

theorem markPaid_verified (h : s.order.paymentState.isRefund = false) : (markPaid s).order.paymentState = .verifiedPaid := by
  simp [markPaid, h]

/-- What a call does: the order is prepared, then it is activated as the row `order` read before says,
or sent to review. -/
inductive Called (s : Books) (draws : Draws) (s' : Books) : Prop
  | kept (h : Prepared s s')
  | reviewed (mid : Books) (reason : String) (evidence : Option Fields) (h : Prepared s mid)
      (hs' : s' = markReview mid draws reason evidence)
  | activated (mid : Books) (order : Order) (h : Prepared s mid) (hid : order.id = s.order.id)
      (hoperation : order.operation = s.order.operation)
      (hpaid : order.paymentState.isRefund = false → mid.order.paymentState = .verifiedPaid)
      (hs' : Activated mid order draws s')

theorem Called.of_prepared (h : Prepared s s') (hc : Called s' draws s'') : Called s draws s'' := by
  cases hc with
  | kept h' => exact .kept (h.trans h')
  | reviewed mid reason evidence h' hs' => exact .reviewed mid reason evidence (h.trans h') hs'
  | activated mid order h' hid hoperation hpaid hs' =>
    exact .activated mid order (h.trans h') (hid.trans h.id) (hoperation.trans h.operation) hpaid hs'

theorem Called.of_review (h : review s draws reason = some (s', out)) : Called s draws s' := by
  obtain rfl := congrArg Prod.fst (some.inj h)
  exact .reviewed s reason none (.refl s) rfl

theorem Called.of_kept (h : some (s, out') = some (s', out)) : Called s draws s' := by
  obtain rfl := congrArg Prod.fst (some.inj h)
  exact .kept (.refl s)

theorem settlePayment_called {providerProfileId transactionId : String} {amount occurredAt revision : Int}
    (h : settlePayment s draws providerProfileId transactionId amount occurredAt revision = some (s', out)) : Called s draws s' := by
  unfold settlePayment at h
  split at h
  · exact .of_review h
  simp only at h
  generalize hinserted : insertPayment s draws providerProfileId transactionId amount _ occurredAt = inserted at h
  have hprepared : Prepared s inserted := hinserted ▸ insertPayment_prepared s draws _ _ _ _ _
  have hstate : inserted.order.paymentState = s.order.paymentState := by
    rw [← hinserted]
    unfold insertPayment
    split <;> rfl
  split at h
  · exact .of_prepared (hprepared.trans (markPaid_prepared inserted)) (.of_review h)
  · refine .activated (markPaid inserted) { s.order with revision := revision } (hprepared.trans (markPaid_prepared inserted)) rfl rfl
      (fun hrefund => markPaid_verified (hstate ▸ hrefund)) (activateLocked_activated h)

theorem applyOrderResult_called
    (h : applyOrderResult py s draws result providerProfileId = some (s', out)) : Called s draws s' := by
  obtain ⟨amount, -, hamount⟩ := bind_eq_some_iff.mp h
  obtain ⟨orderCode, -, hcode⟩ := bind_eq_some_iff.mp hamount
  split at hcode
  · exact .of_review hcode
  refine .of_prepared (recordPaymentProgress_prepared py s result) ?_
  simp only at hcode
  split at hcode
  · exact .of_review hcode
  split at hcode
  · exact .of_kept hcode
  split at hcode
  · rename_i reason _
    obtain rfl := congrArg Prod.fst (some.inj hcode)
    exact .reviewed _ reason (some (timestampReviewEvidence result)) (.refl _) rfl
  · exact settlePayment_called hcode

theorem applyEvent_called {signed : SignedFields} {orderCode : Int}
    (h : applyEvent py s draws signed orderCode result providerProfileId = some (s', out)) : Called s draws s' := by
  obtain ⟨amount, -, hamount⟩ := bind_eq_some_iff.mp h
  obtain ⟨resultCode, -, hcode⟩ := bind_eq_some_iff.mp hamount
  split at hcode
  · exact .of_review hcode
  obtain ⟨signedAmount, -, hsigned⟩ := bind_eq_some_iff.mp hcode
  split at hsigned
  · exact .of_review hsigned
  split at hsigned
  · exact .of_review hsigned
  refine .of_prepared (recordPaymentProgress_prepared py s result) ?_
  simp only at hsigned
  split at hsigned
  · exact .of_review hsigned
  split at hsigned
  · exact .of_kept hsigned
  split at hsigned
  · rename_i reason _
    obtain rfl := congrArg Prod.fst (some.inj hsigned)
    exact .reviewed _ reason (some (timestampReviewEvidence result)) (.refl _) rfl
  · exact settlePayment_called hsigned

theorem activateOrder_called (h : activateOrder s draws = some (s', out)) : Called s draws s' := by
  unfold activateOrder at h
  split at h
  · exact .of_kept h
  split at h
  · exact .of_kept h
  · rename_i hpaid
    rw [ne_eq, not_not] at hpaid
    exact .activated s s.order (.refl s) rfl rfl (fun _ => hpaid) (activateLocked_activated h)

def EventSettled (s s' : Books) : Prop := s' = s ∨ ∃ events, s' = { s with events := events }

theorem setEventState_settled (s : Books) (eventId : String) (status : EventStatus)
    (error : Option String) : EventSettled s (setEventState s eventId status error) := by
  unfold setEventState
  split
  · exact .inr ⟨_, rfl⟩
  · exact .inl rfl

theorem applyVerified_called {eventId : String}
    (h : applyVerified py s draws eventId result providerProfileId = some (s', out)) :
    ∃ mid, Called s draws mid ∧ EventSettled mid s' := by
  unfold applyVerified at h
  split at h
  · exact ⟨s', .of_kept h, .inl rfl⟩
  split at h
  · exact ⟨s', .of_kept h, .inl rfl⟩
  obtain ⟨orderCode, -, hcode⟩ := bind_eq_some_iff.mp h
  split at hcode
  · obtain rfl := congrArg Prod.fst (some.inj hcode)
    exact ⟨s, .kept (.refl s), setEventState_settled s _ _ _⟩
  · obtain ⟨⟨mid, out'⟩, happly, hout⟩ := map_eq_some_iff.mp hcode
    obtain rfl := congrArg Prod.fst hout
    exact ⟨mid, applyEvent_called happly, setEventState_settled mid _ _ _⟩

theorem Activated.payments (h : Activated s order draws s') : s'.payments = s.payments ∧ s'.order.id = s.order.id := by
  cases h <;> exact ⟨rfl, rfl⟩

theorem Called.payments (h : Called s draws s') : s.payments <+: s'.payments ∧ s'.order.id = s.order.id := by
  cases h with
  | kept h => exact ⟨h.payments, h.id⟩
  | reviewed mid reason evidence h hs' =>
    rw [hs']
    exact ⟨h.payments, h.id⟩
  | activated mid order h _ _ _ hs' =>
    obtain ⟨hpayments, hid⟩ := hs'.payments
    exact ⟨hpayments ▸ h.payments, hid.trans h.id⟩

end Bidding.Billing
