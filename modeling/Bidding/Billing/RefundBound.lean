import Bidding.Billing.Refunds
import Bidding.Foundations.Processes
import Mathlib.Algebra.Order.BigOperators.Group.List

/-!
# Refunds stay within what was paid

A request that has the row of the order knows a lower bound of what is paid and an upper bound of what is refunded, and
no step of the others makes them wrong.
-/

namespace Bidding.Billing

open Foundations Usage List

variable {py : PyRuntime} {ι : Type} {w w' w'' : RefundWorld ι} {i j : ι} {orderId : String} {t : RefundTask}

theorem taken_le_amount (intent : RefundIntent) : intent.taken ≤ intent.amount := by
  have hpositive := intent.positive
  unfold RefundIntent.taken
  split <;> omega

theorem refundedAmount_append (intents : List RefundIntent) (intent : RefundIntent) :
    refundedAmount (intents ++ [intent]) = refundedAmount intents + intent.taken := by
  simp [refundedAmount]

theorem refundedAmount_decideIntent (id : String) (state : RefundState) (intents : List RefundIntent) :
    refundedAmount (decideIntent id state intents) ≤ refundedAmount intents := by
  unfold refundedAmount decideIntent
  rw [map_map]
  refine sum_le_sum fun intent _ => ?_
  rw [Function.comp_apply]
  split
  · rename_i hdecided
    calc RefundIntent.taken { intent with state := state } ≤ intent.amount := taken_le_amount _
      _ = intent.taken := by rw [RefundIntent.taken, if_pos hdecided.2]
  · exact le_refl _

theorem map_key_decideIntent (id : String) (state : RefundState) (intents : List RefundIntent) :
    (decideIntent id state intents).map (fun r => (r.idempotencyKey, r.id, r.amount)) =
      intents.map fun r => (r.idempotencyKey, r.id, r.amount) := by
  rw [decideIntent, map_map]
  refine map_congr_left fun intent _ => ?_
  rw [Function.comp_apply]
  split <;> rfl

theorem paidAmount_le_of_prefix {payments payments' : List Payment}
    (h : payments <+: payments') (hcheck : PaymentsAdmitted payments') :
    paidAmount orderId payments ≤ paidAmount orderId payments' := by
  obtain ⟨added, rfl⟩ := h
  rw [paidAmount, paidAmount, map_append, sum_append]
  have hadded : 0 ≤ (added.map (Payment.verifiedFor orderId)).sum := by
    refine sum_nonneg fun amount hamount => ?_
    obtain ⟨payment, hpayment, rfl⟩ := mem_map.mp hamount
    have hnonneg := hcheck payment (mem_append_right _ hpayment)
    unfold Payment.verifiedFor
    split <;> omega
  omega

def RefundWorld.paid (w : RefundWorld ι) : Int := paidAmount w.billing.order.id w.billing.payments

def RefundWorld.ledger (w : RefundWorld ι) : List (String × String × Int) :=
  w.intents.map fun r => (r.idempotencyKey, r.id, r.amount)

def RefundWorld.Unused (w : RefundWorld ι) (key : String) : Prop := ∀ entry ∈ w.ledger, entry.1 ≠ key

/-- What a request knows after its statements so far. -/
def Known (w : RefundWorld ι) (i : ι) : RefundTask → Prop
  | .idle => True
  | .locked _ => w.holder = some i
  | .examined r => w.holder = some i ∧ w.Unused r.idempotencyKey
  | .paid r paid => w.holder = some i ∧ w.Unused r.idempotencyKey ∧ paid ≤ w.paid
  | .summed r paid refunded =>
    w.holder = some i ∧ w.Unused r.idempotencyKey ∧ paid ≤ w.paid ∧ refundedAmount w.intents ≤ refunded
  | .inserted r intent =>
    w.holder = some i ∧ w.Unused r.idempotencyKey ∧ intent.idempotencyKey = r.idempotencyKey ∧
      refundedAmount w.intents + intent.amount ≤ w.paid

/-- The refunds are within what is paid, no key has two intents, and every request knows what it has
read. -/
structure Bounded (w : RefundWorld ι) : Prop where
  bound : refundedAmount w.intents ≤ w.paid
  keys : (w.ledger.map Prod.fst).Nodup
  admitted : PaymentsAdmitted w.billing.payments
  known : ∀ i, Known w i (w.tasks i)

/-- What the others may do to the rows. -/
structure Eases (w w' : RefundWorld ι) : Prop where
  paid : w.paid ≤ w'.paid
  refunded : refundedAmount w'.intents ≤ refundedAmount w.intents
  ledger : w'.ledger = w.ledger

theorem Known.holds (h : Known w i t) (hbusy : t ≠ .idle) : w.holder = some i := by
  cases t with
  | idle => exact absurd rfl hbusy
  | locked _ => exact h
  | examined _ => exact h.1
  | paid _ _ => exact h.1
  | summed _ _ _ => exact h.1
  | inserted _ _ => exact h.1

theorem Known.frame (h : Known w i t) (he : Eases w w') (hholder : w.holder = some i → w'.holder = some i) : Known w' i t := by
  obtain ⟨hpaid, hrefunded, hledger⟩ := he
  cases t with
  | idle => exact trivial
  | locked _ => exact hholder h
  | examined r =>
    refine ⟨hholder h.1, ?_⟩
    rw [RefundWorld.Unused, hledger]
    exact h.2
  | paid r paid =>
    refine ⟨hholder h.1, ?_, le_trans h.2.2 hpaid⟩
    rw [RefundWorld.Unused, hledger]
    exact h.2.1
  | summed r paid refunded =>
    refine ⟨hholder h.1, ?_, le_trans h.2.2.1 hpaid, le_trans hrefunded h.2.2.2⟩
    rw [RefundWorld.Unused, hledger]
    exact h.2.1
  | inserted r intent =>
    refine ⟨hholder h.1, ?_, h.2.2.1, ?_⟩
    · rw [RefundWorld.Unused, hledger]
      exact h.2.1
    · have hbound := h.2.2.2
      omega

theorem Bounded.others_idle (h : Bounded w) (hholder : w.holder = some i) (hne : j ≠ i) : w.tasks j = .idle := by
  by_contra hbusy
  have hj := (h.known j).holds hbusy
  exact hne (Option.mem_unique hj hholder)

/-! ## Steps -/

variable [DecidableEq ι] {checked : CheckedRefund}

theorem Bounded.advance (h : Bounded w) (hholder : w.holder = some i) (hknown : Known w i t) : Bounded (w.advance i t) := by
  refine ⟨h.bound, h.keys, h.admitted, forall_update ?_ fun j hj => ?_⟩
  · exact hknown.frame ⟨le_refl _, le_refl _, rfl⟩ fun hh => hh
  · rw [h.others_idle hholder hj]
    exact trivial

theorem Bounded.finish (h : Bounded w) (i : ι) : Bounded (w.finish i) := by
  refine ⟨h.bound, h.keys, h.admitted, forall_update trivial fun j hj => ?_⟩
  refine (h.known j).frame ⟨le_refl _, le_refl _, rfl⟩ fun hholder => ?_
  simp [RefundWorld.finish, hholder, hj]

omit [DecidableEq ι] in
theorem unused_of_examine {request : RefundRequest}
    (h : w.examine request = .ok (.inr checked)) : w.Unused checked.idempotencyKey := by
  obtain ⟨checked', -, h⟩ := bind_eq_ok.mp h
  split at h
  · obtain ⟨existing, -, h⟩ := map_eq_ok.mp h
    cases h
  rename_i hnone
  obtain ⟨-, -, h⟩ := map_eq_ok.mp h
  obtain rfl := Sum.inr.inj h
  intro entry hentry hkey
  obtain ⟨intent, hintent, rfl⟩ := mem_map.mp hentry
  have hother := List.find?_eq_none.mp hnone intent hintent
  exact hother (decide_eq_true hkey)

/-- The commit of an intent keeps the refunds within what is paid. -/
theorem Bounded.commit (h : Bounded w) {intent : RefundIntent}
    (htask : w.tasks i = .inserted checked intent) : Bounded { w.finish i with intents := w.intents ++ [intent] } := by
  obtain ⟨hholder, hunused, hkey, hbound⟩ := htask ▸ h.known i
  refine ⟨?_, ?_, h.admitted, forall_update trivial fun j hj => ?_⟩
  · have htaken := taken_le_amount intent
    calc refundedAmount (w.intents ++ [intent]) = refundedAmount w.intents + intent.taken :=
          refundedAmount_append w.intents intent
      _ ≤ refundedAmount w.intents + intent.amount := by omega
      _ ≤ w.paid := hbound
  · have hledger : RefundWorld.ledger { w.finish i with intents := w.intents ++ [intent] } =
        w.ledger ++ [(intent.idempotencyKey, intent.id, intent.amount)] := by
      simp [RefundWorld.ledger]
    rw [hledger, map_append, nodup_append]
    refine ⟨h.keys, nodup_singleton _, fun key hmem other hother heq => ?_⟩
    obtain ⟨entry, hentry, rfl⟩ := mem_map.mp hmem
    rw [map_singleton, mem_singleton] at hother
    exact hunused entry hentry (heq.trans (hother.trans hkey))
  · rw [h.others_idle hholder hj]
    exact trivial

omit [DecidableEq ι] in
theorem Bounded.elsewhere (h : Bounded w) {s' : Books} (hid : s'.order.id = w.billing.order.id)
    (hpayments : w.billing.payments <+: s'.payments) (hcheck : PaymentsAdmitted s'.payments) :
    Bounded { w with billing := s' } := by
  have hpaid : w.paid ≤ RefundWorld.paid { w with billing := s' } := by
    simp only [RefundWorld.paid, hid]
    exact paidAmount_le_of_prefix hpayments hcheck
  refine ⟨le_trans h.bound hpaid, h.keys, hcheck, fun j => ?_⟩
  exact (h.known j).frame ⟨hpaid, le_refl _, rfl⟩ fun hholder => hholder

theorem run_payments {s s' : Books} {draws : Draws} {call : BillingCall} {out : Outcome}
    (h : call.run py s draws = some (s', out)) : s.payments <+: s'.payments ∧ s'.order.id = s.order.id := by
  cases call with
  | webhook eventId result providerProfileId =>
    obtain ⟨mid, hcalled, hsettled⟩ := applyVerified_called h
    rcases hsettled with rfl | ⟨events, rfl⟩
    · exact hcalled.payments
    · exact hcalled.payments
  | query result providerProfileId => exact (applyOrderResult_called h).payments
  | retry => exact (activateOrder_called h).payments

/-- A statement keeps the refunds of a payment, with those in progress, within what was paid. -/
theorem Bounded.step (h : Bounded w) (hstep : RefundStep py w w') : Bounded w' := by
  cases hstep with
  | lock i request hidle hfree =>
    refine ⟨h.bound, h.keys, h.admitted, forall_update rfl fun j hj => ?_⟩
    have hjidle : w.tasks j = .idle := by
      by_contra hbusy
      rw [(h.known j).holds hbusy] at hfree
      cases hfree
    rw [hjidle]
    exact trivial
  | examine i request checked htask hexamine =>
    have hholder : w.holder = some i := (h.known i).holds (by rw [htask]; exact RefundTask.noConfusion)
    exact h.advance hholder ⟨hholder, unused_of_examine hexamine⟩
  | replay i request existing htask hexamine => exact h.finish i
  | sumPaid i checked htask =>
    obtain ⟨hholder, hunused⟩ := htask ▸ h.known i
    exact h.advance hholder ⟨hholder, hunused, le_refl _⟩
  | sumRefunds i checked paid htask =>
    obtain ⟨hholder, hunused, hpaid⟩ := htask ▸ h.known i
    exact h.advance hholder ⟨hholder, hunused, hpaid, le_refl _⟩
  | insert i checked paid refunded id htask hbound hreason =>
    obtain ⟨hholder, hunused, hpaid, hrefunded⟩ := htask ▸ h.known i
    refine h.advance hholder ⟨hholder, hunused, rfl, ?_⟩
    unfold checkRefundBound at hbound
    split at hbound
    · cases hbound
    · simp only [CheckedRefund.intent]
      omega
  | commit i checked intent htask => exact h.commit htask
  | abort i => exact h.finish i
  | decide id state =>
    have heases : Eases w { w with intents := decideIntent id state w.intents } :=
      ⟨le_refl _, refundedAmount_decideIntent id state w.intents, map_key_decideIntent id state w.intents⟩
    refine ⟨le_trans heases.refunded h.bound, ?_, h.admitted, fun j => ?_⟩
    · rw [heases.ledger]
      exact h.keys
    · exact (h.known j).frame heases fun hholder => hholder
  | call draws call s' out hfree hrun hcheck =>
    obtain ⟨hpayments, hid⟩ := run_payments hrun
    exact h.elsewhere hid hpayments hcheck
  | elsewhere s' hid hpayments hcheck => exact h.elsewhere hid hpayments hcheck

theorem Bounded.run (h : Bounded w) (hrun : RefundRun py w w') : Bounded w' := by
  induction hrun with
  | start => exact h
  | step _ hstep ih => exact ih.step hstep

/-- No step takes an intent out of the ledger. -/
theorem ledger_step (hstep : RefundStep py w w') : w.ledger <+: w'.ledger := by
  cases hstep with
  | commit i checked intent htask =>
    refine ⟨[(intent.idempotencyKey, intent.id, intent.amount)], ?_⟩
    simp [RefundWorld.ledger]
  | decide id state =>
    have hledger : RefundWorld.ledger { w with intents := decideIntent id state w.intents } = w.ledger :=
      map_key_decideIntent id state w.intents
    exact hledger ▸ prefix_refl _
  | _ => exact prefix_refl _

theorem ledger_run (hrun : RefundRun py w w') : w.ledger <+: w'.ledger := by
  induction hrun with
  | start => exact prefix_refl _
  | step _ hstep ih => exact ih.trans (ledger_step hstep)

structure RefundWorld.Fresh (w : RefundWorld ι) : Prop where
  intents : w.intents = []
  holder : w.holder = none
  idle : ∀ i, w.tasks i = .idle
  admitted : PaymentsAdmitted w.billing.payments

theorem paidAmount_nonneg {payments : List Payment} (h : PaymentsAdmitted payments) : 0 ≤ paidAmount orderId payments := by
  calc (0 : Int) = paidAmount orderId [] := rfl
    _ ≤ paidAmount orderId payments := paidAmount_le_of_prefix nil_prefix h

omit [DecidableEq ι] in
theorem RefundWorld.Fresh.bounded (h : w.Fresh) : Bounded w where
  bound := by
    rw [h.intents]
    exact paidAmount_nonneg h.admitted
  keys := by simp [RefundWorld.ledger, h.intents]
  admitted := h.admitted
  known := fun i => by
    rw [h.idle i]
    exact trivial

/-- In every run on an order, the refunds that are pending or succeeded are within what is paid for it;
and once a key has an intent, it keeps this one and gets no other, whatever is requested later. -/
theorem refunds_within_paid (hfresh : w.Fresh) (hrun : RefundRun py w w') :
    refundedAmount w'.intents ≤ paidAmount w'.billing.order.id w'.billing.payments ∧
      ∀ intent ∈ w'.intents, ∀ w'', RefundRun py w' w'' → (w''.ledger.filter fun entry => entry.1 = intent.idempotencyKey) =
          [(intent.idempotencyKey, intent.id, intent.amount)] := by
  have hbounded := hfresh.bounded.run hrun
  refine ⟨hbounded.bound, fun intent hintent w'' hrest => ?_⟩
  have hlater := hbounded.run hrest
  have hmem : (intent.idempotencyKey, intent.id, intent.amount) ∈ w''.ledger :=
    (ledger_run hrest).subset (mem_map.mpr ⟨intent, hintent, rfl⟩)
  exact filter_key_eq_singleton hlater.keys hmem

def samplePaid : Books := { samplePack with
  order := { samplePack.order with paymentState := .verifiedPaid }
  payments := [⟨"payment-1", "order-1", "payos", "FT1", "verified", 100000, "VND", "on_time", some 2000⟩] }

def sampleRefund (amount : Int) (key : String) : RefundRequest := ⟨"admin-1", .int amount, "Hoàn tiền", key⟩

/-- A refund of 60000 fails, one of 100000 is asked for, and the first request is repeated. -/
theorem refunds_within_paid_sample : ∃ w' w'' : RefundWorld Bool,
    RefundRun .plain ⟨samplePaid, none, [], none, fun _ => .idle⟩ w' ∧ w'.intents.map RefundIntent.state = [.failed, .pending] ∧
      refundedAmount w'.intents ≤ paidAmount w'.billing.order.id w'.billing.payments ∧ RefundRun .plain w' w'' ∧
      (w''.ledger.filter fun entry => entry.1 = "refund-key-1") = [("refund-key-1", "refund-1", 60000)] := by
  let w : RefundWorld Bool := ⟨samplePaid, none, [], none, fun _ => .idle⟩
  let part : CheckedRefund := ⟨"admin-1", 60000, "Hoàn tiền", "refund-key-1", by decide⟩
  let whole : CheckedRefund := ⟨"admin-1", 100000, "Hoàn tiền", "refund-key-2", by decide⟩
  have hlocked : RefundRun .plain w _ := .step .start (.lock true (sampleRefund 60000 "refund-key-1") rfl rfl)
  have hpart := ((hlocked.step (.examine true _ part rfl (by decide))).step (.sumPaid true part rfl)).step
    (.sumRefunds true part _ rfl)
  have hinserted := hpart.step (.insert true part _ _ "refund-1" rfl (by decide) (by decide))
  have hfailed := (hinserted.step (.commit true part _ rfl)).step (.decide "refund-1" .failed)
  have hlocked := hfailed.step (.lock false (sampleRefund 100000 "refund-key-2") rfl rfl)
  have hwhole := ((hlocked.step (.examine false _ whole rfl (by decide))).step (.sumPaid false whole rfl)).step
    (.sumRefunds false whole _ rfl)
  have hinserted := hwhole.step (.insert false whole _ _ "refund-2" rfl (by decide) (by decide))
  have hrun := hinserted.step (.commit false whole _ rfl)
  have hfresh : w.Fresh := ⟨rfl, rfl, fun _ => rfl, by simp [PaymentsAdmitted, w, samplePaid]⟩
  obtain ⟨hbound, honce⟩ := refunds_within_paid hfresh hrun
  have hrest : ∀ {w'}, RefundRun .plain w w' → RefundRun .plain w' w' := fun _ => .start
  have hagain := (hrest hrun).step (.lock true (sampleRefund 60000 "refund-key-1") rfl rfl)
  have hreplayed := hagain.step (.replay true _ { part.intent "refund-1" 1 with state := .failed } rfl (by decide))
  exact ⟨_, _, hrun, by decide, hbound, hreplayed, honce _ (.head _) _ hreplayed⟩

end Bidding.Billing
