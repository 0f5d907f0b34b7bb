import Bidding.Billing.Owner

/-!
# Queued renewals do not overlap

A renewal is booked behind the others (`Foundations.Line`) and becomes current behind its predecessor. The line is broken
by an order that is reviewed and gets a later term, while another renewal waits behind its old one.
-/

namespace Bidding.Billing

open Foundations Usage List Option

variable {py : PyRuntime} {w w' w'' : OwnerBilling} {s s' mid : Books} {draws : Draws}
  {file file' : OrderFile} {id : String} {j : String}

/-- An order and its rows as the calls leave them. -/
structure Filed (id : String) (file : OrderFile) : Prop where
  id : file.order.id = id
  renew : file.order.operation = .renew
  rows : ∀ row renewal, file.activation = some row → row.scheduled = some renewal →
    file.order.paymentState = .verifiedPaid ∧ file.order.activationState = .pending ∧
      ∃ revision, row.expectedRevision = some revision

theorem dueRenewal_eq (s : Books) : dueRenewal s = s.activation.bind Activation.scheduled := by
  unfold dueRenewal
  cases s.activation <;> rfl

theorem Filed.queued_eq (h : Filed id file) : file.queued = file.activation.bind fun row =>
    row.scheduled.map fun renewal => ⟨renewal, row.expectedRevision, file.order.id⟩ := by
  unfold OrderFile.queued
  split
  · rfl
  rename_i hstates
  cases hrow : file.activation with
  | none => rfl
  | some row =>
    cases hscheduled : row.scheduled with
    | none => simp [hscheduled]
    | some renewal =>
      obtain ⟨hpaid, hpending, -⟩ := h.rows row renewal hrow hscheduled
      exact absurd ⟨h.renew, hpaid, hpending⟩ hstates

theorem Filed.queued_none (h : Filed id file) (hnone : ∀ row, file.activation = some row → row.scheduled = none) :
    file.queued = none := by
  rw [h.queued_eq]
  cases hrow : file.activation with
  | none => rfl
  | some row => simp [hnone row hrow]

theorem Filed.of_unscheduled (hid : file.order.id = id) (hrenew : file.order.operation = .renew)
    (hnone : ∀ row, file.activation = some row → row.scheduled = none) : Filed id file ∧ file.queued = none := by
  have hfiled : Filed id file := by
    refine ⟨hid, hrenew, fun row renewal hrow hscheduled => ?_⟩
    rw [hnone row hrow] at hscheduled
    cases hscheduled
  exact ⟨hfiled, hfiled.queued_none hnone⟩

theorem scheduled_of_state {row : Activation} (h : row.state ≠ .pending) : row.scheduled = none := by
  unfold Activation.scheduled
  split
  · contradiction
  · rfl

theorem Prepared.filed (h : Prepared s s') (hfiled : Filed id s.toFile) :
    Filed id s'.toFile ∧ s'.toFile.queued = s.toFile.queued := by
  have hfiled' : Filed id s'.toFile := by
    refine ⟨h.id.trans hfiled.id, h.operation.trans hfiled.renew, fun row renewal hrow hscheduled => ?_⟩
    obtain ⟨hpaid, hpending, hrevision⟩ := hfiled.rows row renewal (h.activation.symm.trans hrow) hscheduled
    exact ⟨h.paid hpaid, h.pending.elim (fun heq => heq.trans hpending) (fun heq => heq), hrevision⟩
  refine ⟨hfiled', ?_⟩
  rw [hfiled'.queued_eq, hfiled.queued_eq]
  simp only [Books.toFile, h.activation, h.id]

theorem markReview_filed (draws : Draws) (reason : String) (evidence : Option Fields) (hid : s.order.id = id)
    (hrenew : s.order.operation = .renew) : Filed id (markReview s draws reason evidence).toFile ∧
      (markReview s draws reason evidence).toFile.queued = none := by
  refine Filed.of_unscheduled hid hrenew fun row hrow => scheduled_of_state ?_
  have hstate : row.state = .reviewRequired := by
    unfold markReview at hrow
    cases hs : s.activation <;> cases evidence <;>
      simp [Books.toFile, Books.setActivationState, hs] at hrow <;> rw [← hrow]
  rw [hstate]
  exact ActivationState.noConfusion

theorem markApplied_filed (draws : Draws) (order : Order) (before : Option Subscription) (after : AfterJson)
    (hid : s.order.id = id) (hrenew : s.order.operation = .renew) : Filed id (markApplied s order draws before after).toFile ∧
      (markApplied s order draws before after).toFile.queued = none := by
  refine Filed.of_unscheduled hid hrenew fun row hrow => scheduled_of_state ?_
  have hstate : row.state = .applied := by
    unfold markApplied at hrow
    cases hs : s.activation <;>
      simp [Books.toFile, Books.setActivationState, hs] at hrow <;> rw [← hrow]
  rw [hstate]
  exact ActivationState.noConfusion

theorem scheduleRenewal_filed (draws : Draws) (current : Subscription) (renewal : Scheduled) (revision : Int)
    (hid : s.order.id = id) (hrenew : s.order.operation = .renew) (hpaid : s.order.paymentState = .verifiedPaid) :
    Filed id (scheduleRenewal s draws current renewal revision).toFile ∧
      (scheduleRenewal s draws current renewal revision).toFile.queued = some ⟨renewal, some revision, id⟩ := by
  obtain ⟨row, hrow, hscheduled, hrevision⟩ : ∃ row,
      (scheduleRenewal s draws current renewal revision).toFile.activation = some row ∧
      row.scheduled = some renewal ∧ row.expectedRevision = some revision := by
    unfold scheduleRenewal
    cases hs : s.activation <;> exact ⟨_, rfl, rfl, rfl⟩
  have hfiled : Filed id (scheduleRenewal s draws current renewal revision).toFile := by
    refine ⟨hid, hrenew, fun row' renewal' hrow' _ => ⟨hpaid, rfl, ?_⟩⟩
    rw [hrow] at hrow'
    cases hrow'
    exact ⟨revision, hrevision⟩
  refine ⟨hfiled, ?_⟩
  rw [hfiled.queued_eq, hrow]
  simp [hscheduled, hrevision, hfiled.id]

def QueuedRenewal.booked (q : QueuedRenewal) : Booked String Int :=
  ⟨⟨q.after.startsAt, q.after.expiresAt⟩, q.after.expectedSourceOrderId⟩

def GivenTerm.slot (t : GivenTerm) : Foundations.Slot Int := ⟨t.startsAt, t.expiresAt⟩

def OwnerBilling.queuedAt (w : OwnerBilling) (id : String) : Option QueuedRenewal :=
  (w.files.get? id).bind OrderFile.queued

def OwnerBilling.termEnd (w : OwnerBilling) : Int := (w.subscription.bind Subscription.expiresAt).getD 0

def OwnerBilling.line (w : OwnerBilling) : Line String Int where
  holder := w.subscription.bind Subscription.sourceOrderId
  stop := w.termEnd
  waiting := fun id => (w.queuedAt id).map QueuedRenewal.booked
  given := w.terms.map GivenTerm.slot

def AllFiled (w : OwnerBilling) : Prop := ∀ id file, w.files.get? id = some file → Filed id file

def Undisturbed (w : OwnerBilling) : OwnerAct → String → OrderFile → Prop
  | .call, id, file => (∃ row, file.activation = some row ∧ row.state = .applied) ∨
      file.queued ≠ none ∨ ∀ j q, w.queuedAt j = some q → q.after.expectedSourceOrderId ≠ some id
  | .review, _, file => file.queued = none

theorem line_waiting {b : Booked String Int} (h : w.line.waiting j = some b) : ∃ q, w.queuedAt j = some q ∧ b = q.booked := by
  obtain ⟨q, hq, hb⟩ := map_eq_some_iff.mp h
  exact ⟨q, hq, hb.symm⟩

theorem unawaited_iff : w.line.Unawaited id ↔ ∀ j q, w.queuedAt j = some q → q.after.expectedSourceOrderId ≠ some id := by
  constructor
  · exact fun h j q hq => h j q.booked (by simp [OwnerBilling.line, hq])
  · intro h j b hb
    obtain ⟨q, hq, rfl⟩ := line_waiting hb
    exact h j q hq

theorem mem_queuedRenewals {q : QueuedRenewal} (hj : j ≠ id) (hq : w.queuedAt j = some q) : q ∈ w.queuedRenewals id := by
  obtain ⟨file, hfile, hq⟩ := bind_eq_some_iff.mp hq
  rw [OwnerBilling.queuedRenewals, mem_insertionSort, mem_filterMap]
  refine ⟨(j, file), (Dict.mem_entries_iff _ _ _).mpr hfile, ?_⟩
  rw [if_neg hj]
  exact hq

theorem Behind.last {current : Subscription} {renewal : Scheduled} {revision : Int}
    (h : Behind s current renewal revision) (hsub : w.subscription = some current)
    (hqueued : s.queuedRenewals = w.queuedRenewals id) : w.line.Last id ⟨renewal.startsAt, renewal.expiresAt⟩ := by
  refine ⟨?_, fun j b hj hb => ?_⟩
  · simpa [OwnerBilling.line, OwnerBilling.termEnd, hsub] using h.afterCurrent
  · obtain ⟨q, hq, rfl⟩ := line_waiting hb
    exact h.afterQueued q (hqueued ▸ mem_queuedRenewals hj hq)

theorem line_waiting_set (w : OwnerBilling) (files : Dict String OrderFile) (hfiles : files = w.files.set id file) :
    (fun j => ((files.get? j).bind OrderFile.queued).map QueuedRenewal.booked) =
      Function.update w.line.waiting id (file.queued.map QueuedRenewal.booked) := by
  subst hfiles
  funext j
  by_cases hj : j = id
  · subst hj
    rw [Function.update_self, Dict.get?_set_self]
    rfl
  · rw [Function.update_of_ne hj, Dict.get?_set_of_ne _ _ hj]
    rfl

theorem AllFiled.set (h : AllFiled w) (hfile : Filed id file) (files : Dict String OrderFile)
    (hfiles : files = w.files.set id file) : ∀ j other, files.get? j = some other → Filed j other := by
  subst hfiles
  intro j other hother
  by_cases hj : j = id
  · subst hj
    rw [Dict.get?_set_self] at hother
    cases hother
    exact hfile
  · rw [Dict.get?_set_of_ne _ _ hj] at hother
    exact h j other hother

/-! ## The line after a call -/

/-- What a call does to the line: the order waits as before, leaves the queue, is queued, or its term is
written. -/
inductive Worked (w : OwnerBilling) (id : String) (file : OrderFile) (s' : Books) : Prop
  | kept (hqueued : s'.toFile.queued = file.queued ∨ s'.toFile.queued = none)
      (hsub : s'.subscription = w.subscription) (hterms : s'.benefits.filterMap (Benefit.termOf id) = [])
  | queued (current : Subscription) (renewal : Scheduled) (revision : Int)
      (hcurrent : w.subscription = some current) (hunqueued : file.queued = none)
      (hrow : ∀ row, file.activation = some row → row.state ≠ .applied)
      (hlast : w.line.Last id ⟨renewal.startsAt, renewal.expiresAt⟩) (hslot : renewal.startsAt < renewal.expiresAt)
      (hqueued : s'.toFile.queued = some ⟨renewal, some revision, id⟩) (hsub : s'.subscription = w.subscription)
      (hterms : s'.benefits.filterMap (Benefit.termOf id) = [])
  | term (current next : Subscription) (startsAt expiresAt : Int)
      (hcurrent : w.subscription = some current) (hnext : s'.subscription = some next)
      (hsource : next.sourceOrderId = some id) (hexpires : next.expiresAt = some expiresAt)
      (hrevision : next.revision = current.revision + 1) (hqueued : s'.toFile.queued = none)
      (hterms : s'.benefits.filterMap (Benefit.termOf id) = [⟨id, startsAt, expiresAt⟩])
      (horigin : (file.queued = none ∧ (∀ row, file.activation = some row → row.state ≠ .applied) ∧
          w.line.Last id ⟨startsAt, expiresAt⟩ ∧ startsAt < expiresAt) ∨
        ∃ q, file.queued = some q ∧ q.after.startsAt = startsAt ∧ q.after.expiresAt = expiresAt ∧
          current.sourceOrderId = q.after.expectedSourceOrderId ∧
          q.expectedRevision = some current.revision)

theorem Unapplied.row (h : Unapplied s) {row : Activation} (hrow : s.activation = some row) : row.state ≠ .applied := by
  simpa [Unapplied, hrow] using h

theorem Activated.worked {order : Order} (hfiled : Filed id file) (hprepared : Prepared (w.view id file) mid)
    (hid : order.id = id) (hoperation : order.operation = .renew)
    (hpaid : order.paymentState.isRefund = false → mid.order.paymentState = .verifiedPaid)
    (h : Activated mid order draws s') : Worked w id file s' ∧ Filed id s'.toFile := by
  obtain ⟨hmid, hwaits⟩ := hprepared.filed (s := w.view id file) hfiled
  have hmidSub : mid.subscription = w.subscription := hprepared.subscription
  have hmidRow : mid.activation = file.activation := hprepared.activation
  have hbenefits : mid.benefits = [] := hprepared.benefits
  -- without a renewal that is due, the order waits for nothing
  have hunqueued : dueRenewal mid = none → file.queued = none := by
    intro hdue
    refine hfiled.queued_none fun row hrow => ?_
    rw [dueRenewal_eq, hmidRow, hrow] at hdue
    exact hdue
  have hunapplied : Unapplied mid → ∀ row, file.activation = some row → row.state ≠ .applied :=
    fun hrow row hfile => hrow.row (hmidRow.trans hfile)
  cases h with
  | kept =>
    refine ⟨.kept (.inl hwaits) hmidSub ?_, hmid⟩
    simp [hbenefits]
  | reviewed reason =>
    obtain ⟨hreviewed, hnone⟩ := markReview_filed draws reason none hmid.id hmid.renew
    refine ⟨.kept (.inr hnone) hmidSub ?_, hreviewed⟩
    simp [markReview_benefits, hbenefits]
  | queued current renewal revision hcurrent hdue hrefund hrow hbehind =>
    obtain ⟨hscheduled, hqueued⟩ := scheduleRenewal_filed draws current renewal revision hmid.id hmid.renew (hpaid hrefund)
    have hsub : w.subscription = some current := hmidSub ▸ hcurrent
    refine ⟨.queued current renewal revision hsub (hunqueued hdue) (hunapplied hrow)
      (hbehind.last hsub hprepared.queued) hbehind.nonempty hqueued hmidSub ?_, hscheduled⟩
    simp [scheduleRenewal, Books.setActivationState, hbenefits]
  | credits tables quantity expiresAt =>
    obtain ⟨happlied, hnone⟩ := markApplied_filed (s := { mid with
      credits := tables, benefits := mid.benefits ++ [.credits quantity expiresAt] }) draws order none
      (.credits quantity expiresAt) hmid.id hmid.renew
    refine ⟨.kept (.inr hnone) hmidSub ?_, happlied⟩
    simp [markApplied, Books.setActivationState, hbenefits, Benefit.termOf]
  | term next tables startsAt expiresAt planVersionId hrow hreplaces horigin =>
    obtain ⟨current, hcurrent, horigin⟩ := horigin hoperation
    have hsub : w.subscription = some current := hmidSub ▸ hcurrent
    obtain ⟨happlied, hnone⟩ := markApplied_filed (s := { mid with
      subscription := some next, credits := tables
      benefits := mid.benefits ++ [.term startsAt expiresAt] }) draws order mid.subscription
      (.term startsAt expiresAt planVersionId) hmid.id hmid.renew
    refine ⟨.term current next startsAt expiresAt hsub rfl (hid ▸ hreplaces.source) hreplaces.expires
      (hreplaces.revision current hcurrent) hnone ?_ ?_, happlied⟩
    · simp [withTerm, markApplied, Books.setActivationState, hbenefits, Benefit.termOf]
    · cases horigin with
      | behind renewal revision hdue hbehind hstarts hexpires =>
        subst hstarts hexpires
        exact .inl ⟨hunqueued hdue, hunapplied hrow, hbehind.last hsub hprepared.queued, hbehind.nonempty⟩
      | due renewal hdue hsource _ hrevision hstarts hexpires =>
        rw [dueRenewal_eq, hmidRow] at hdue
        obtain ⟨row, hfileRow, hscheduled⟩ := bind_eq_some_iff.mp hdue
        obtain ⟨-, -, revision, hrowRevision⟩ := hfiled.rows row renewal hfileRow hscheduled
        have hcurrentRevision : current.revision = revision :=
          hrevision revision (by rw [hmidRow, hfileRow]; exact hrowRevision)
        refine .inr ⟨⟨renewal, some revision, id⟩, ?_, hstarts.symm, hexpires.symm, hsource, by rw [hcurrentRevision]⟩
        rw [hfiled.queued_eq, hfileRow]
        simp [hscheduled, hrowRevision, hfiled.id]

theorem run_worked (hfiled : Filed id file) {call : BillingCall} {out : Outcome}
    (h : call.run py (w.view id file) draws = some (s', out)) : Worked w id file s' ∧ Filed id s'.toFile := by
  have hcalled : ∀ {mid}, Called (w.view id file) draws mid → Worked w id file mid ∧ Filed id mid.toFile := by
    intro mid hcalled
    cases hcalled with
    | kept hprepared =>
      obtain ⟨hmid, hwaits⟩ := hprepared.filed (s := w.view id file) hfiled
      refine ⟨.kept (.inl hwaits) hprepared.subscription ?_, hmid⟩
      rw [hprepared.benefits]
      rfl
    | reviewed before reason evidence hprepared hs' =>
      subst hs'
      obtain ⟨hmid, -⟩ := hprepared.filed (s := w.view id file) hfiled
      obtain ⟨hreviewed, hnone⟩ := markReview_filed draws reason evidence hmid.id hmid.renew
      refine ⟨.kept (.inr hnone) hprepared.subscription ?_, hreviewed⟩
      rw [markReview_benefits, hprepared.benefits]
      rfl
    | activated before order hprepared hid hoperation hpaid hs' =>
      exact hs'.worked hfiled hprepared (hid.trans hfiled.id) (hoperation.trans hfiled.renew) hpaid
  cases call with
  | webhook eventId result providerProfileId =>
    obtain ⟨mid, hmid, hsettled⟩ := applyVerified_called h
    rcases hsettled with rfl | ⟨events, rfl⟩
    · exact hcalled hmid
    obtain ⟨hworked, hmidFiled⟩ := hcalled hmid
    refine ⟨?_, hmidFiled⟩
    cases hworked with
    | kept h₁ h₂ h₃ => exact .kept h₁ h₂ h₃
    | queued current renewal revision h₁ h₂ h₃ h₄ h₅ h₆ h₇ h₈ =>
      exact .queued current renewal revision h₁ h₂ h₃ h₄ h₅ h₆ h₇ h₈
    | term current next startsAt expiresAt h₁ h₂ h₃ h₄ h₅ h₆ h₇ h₈ =>
      exact .term current next startsAt expiresAt h₁ h₂ h₃ h₄ h₅ h₆ h₇ h₈
  | query result providerProfileId => exact hcalled (applyOrderResult_called h)
  | retry => exact hcalled (activateOrder_called h)

/-! ## Steps and runs -/

theorem line_store (w : OwnerBilling) (id : String) (s' : Books) : (w.store id s').line =
    { holder := s'.subscription.bind Subscription.sourceOrderId
      stop := (s'.subscription.bind Subscription.expiresAt).getD 0
      waiting := Function.update w.line.waiting id (s'.toFile.queued.map QueuedRenewal.booked)
      given := w.line.given ++ (s'.benefits.filterMap (Benefit.termOf id)).map GivenTerm.slot } := by
  rw [← line_waiting_set w _ rfl]
  simp [OwnerBilling.line, OwnerBilling.store, OwnerBilling.termEnd, OwnerBilling.queuedAt]

theorem line_waiting_self (hfile : w.files.get? id = some file) : file.queued.map QueuedRenewal.booked = w.line.waiting id := by
  simp [OwnerBilling.line, OwnerBilling.queuedAt, hfile]

/-- A call that disturbs no filed period is a step of the booking line. -/
theorem Worked.step (hfile : w.files.get? id = some file) (hallowed : Undisturbed w .call id file)
    (h : Worked w id file s') : w.line.Step (w.store id s').line := by
  have hunawaited : file.queued = none → (∀ row, file.activation = some row → row.state ≠ .applied) → w.line.Unawaited id := by
    intro hnone hrows
    obtain ⟨row, hrow, happlied⟩ | hqueued | hunawaited := hallowed
    · exact absurd happlied (hrows row hrow)
    · exact absurd hnone hqueued
    · exact unawaited_iff.mpr hunawaited
  rw [line_store]
  cases h with
  | kept hqueued hsub hterms =>
    rw [hsub, hterms, map_nil, append_nil]
    rcases hqueued with hsame | hnone
    · rw [hsame, line_waiting_self hfile, Function.update_eq_self]
      exact .stay
    · rw [hnone]
      exact .drop id
  | queued current renewal revision hcurrent hnone hrows hlast hslot hqueued hsub hterms =>
    rw [hsub, hterms, hqueued, map_nil, append_nil]
    exact .book id _ hlast hslot (hunawaited hnone hrows)
  | term current next startsAt expiresAt hcurrent hnext hsource hexpires _ hqueued hterms horigin =>
    rw [hnext, hqueued, hterms, bind_some, bind_some, hsource, hexpires]
    rcases horigin with ⟨hnone, hrows, hlast, hslot⟩ | ⟨q, hq, rfl, rfl, hpredecessor, -⟩
    · exact .give id ⟨startsAt, expiresAt⟩ hlast hslot (hunawaited hnone hrows)
    refine .due id q.booked ?_ ?_
    · rw [← line_waiting_self hfile, hq]
      rfl
    · simp [OwnerBilling.line, hcurrent, hpredecessor, QueuedRenewal.booked]

theorem Beside.queuedAt (h : Beside w w') (hfiled : AllFiled w) (id : String) :
    w'.queuedAt id = w.queuedAt id ∧ ∀ file, w'.files.get? id = some file → Filed id file := by
  cases hfile : w.files.get? id with
  | none =>
    cases hfile' : w'.files.get? id with
    | none => simp [OwnerBilling.queuedAt, hfile, hfile']
    | some file =>
      obtain ⟨hid, hrenew, hrow⟩ := h.added id file hfile hfile'
      obtain ⟨hnew, hnone⟩ := Filed.of_unscheduled hid hrenew (fun row hr => by rw [hrow] at hr; cases hr)
      refine ⟨by simp [OwnerBilling.queuedAt, hfile, hfile', hnone], fun other hother => ?_⟩
      cases hother
      exact hnew
  | some file =>
    obtain ⟨file', hfile', hid, hop, hpaid, hstate, hrow⟩ := h.kept id file hfile
    obtain ⟨hfid, hfrenew, hfrows⟩ := hfiled id file hfile
    have hnew : Filed id file' := by
      refine ⟨hid.trans hfid, hop.trans hfrenew, fun row renewal hr hs => ?_⟩
      rw [hpaid, hstate]
      exact hfrows row renewal (hrow ▸ hr) hs
    refine ⟨?_, fun other hother => ?_⟩
    · simp [OwnerBilling.queuedAt, hfile, hfile', OrderFile.queued, hid, hop, hpaid, hstate, hrow]
    · rw [hfile'] at hother
      cases hother
      exact hnew

/-- A step of an owner keeps its orders filed and is one step of its line. -/
theorem owner_step (hfiled : AllFiled w) (h : OwnerStep py Undisturbed w w') : AllFiled w' ∧ w.line.Step w'.line := by
  cases h with
  | call id file draws call s' out hfile hallowed _ hrun =>
    obtain ⟨hworked, hnew⟩ := run_worked (hfiled id file hfile) hrun
    exact ⟨hfiled.set hnew _ rfl, hworked.step hfile hallowed⟩
  | review id file hfile hallowed =>
    obtain ⟨hid, hrenew, -⟩ := hfiled id file hfile
    have hunscheduled : ∀ row, file.activation = some row → row.scheduled = none := by
      intro row hrow
      have hnone : file.queued = none := hallowed
      rw [(hfiled id file hfile).queued_eq, hrow] at hnone
      simpa using hnone
    obtain ⟨hnew, hnone⟩ : Filed id file.sentToReview ∧ file.sentToReview.queued = none :=
      Filed.of_unscheduled hid hrenew hunscheduled
    refine ⟨hfiled.set hnew _ rfl, ?_⟩
    have hline : OwnerBilling.line { w with files := w.files.set id file.sentToReview } =
        { w.line with waiting := Function.update w.line.waiting id none } := by
      have hwaiting := line_waiting_set w (w.files.set id file.sentToReview) rfl
      rw [hnone] at hwaiting
      simp only [OwnerBilling.line, OwnerBilling.queuedAt, OwnerBilling.termEnd, map_none] at hwaiting ⊢
      rw [hwaiting]
    rw [hline]
    exact .drop id
  | elsewhere w' hbeside =>
    refine ⟨fun id file hfile => (hbeside.queuedAt hfiled id).2 file hfile, ?_⟩
    have hline : w'.line = w.line := by
      simp only [OwnerBilling.line, OwnerBilling.termEnd, hbeside.subscription, hbeside.terms,
        fun id => (hbeside.queuedAt hfiled id).1]
    rw [hline]
    exact .stay

/-- An owner before the first of its renewals is paid: the terms so far follow each other, up to the
current one. -/
structure OwnerBilling.Fresh (w : OwnerBilling) : Prop where
  files : ∀ id file, w.files.get? id = some file → file.order.id = id ∧ file.order.operation = .renew ∧ file.activation = none
  chain : w.terms.Pairwise fun a b => a.expiresAt ≤ b.startsAt
  bounded : ∀ t ∈ w.terms, t.expiresAt ≤ w.termEnd

theorem OwnerBilling.Fresh.filed (h : w.Fresh) (hfile : w.files.get? id = some file) : Filed id file ∧ file.queued = none := by
  obtain ⟨hid, hrenew, hrow⟩ := h.files id file hfile
  exact Filed.of_unscheduled hid hrenew fun row hr => by rw [hrow] at hr; cases hr

theorem OwnerBilling.Fresh.sound (h : w.Fresh) : w.line.Sound := by
  have hnone : ∀ id, w.line.waiting id = none := by
    intro id
    cases hfile : w.files.get? id with
    | none => simp [OwnerBilling.line, OwnerBilling.queuedAt, hfile]
    | some file => simp [OwnerBilling.line, OwnerBilling.queuedAt, hfile, (h.filed hfile).2]
  have hempty : ∀ {id b}, w.line.waiting id ≠ some b := by
    intro id b hb
    rw [hnone id] at hb
    cases hb
  refine ⟨fun _ _ hb => absurd hb hempty, fun _ _ _ _ _ hb => absurd hb hempty, ?_, fun t ht => ?_,
    fun _ _ _ _ hb => absurd hb hempty, fun _ _ hb => absurd hb hempty, fun _ _ _ _ _ hb => absurd hb hempty⟩
  · exact pairwise_map.mpr h.chain
  · obtain ⟨term, hterm, rfl⟩ := mem_map.mp ht
    exact h.bounded term hterm

/-- In every undisturbed run the periods of an owner stand on one line without overlap. -/
theorem owner_run (hfresh : w.Fresh) (hrun : OwnerRun py Undisturbed w w') : AllFiled w' ∧ w'.line.Sound := by
  induction hrun with
  | start => exact ⟨fun id file hfile => (hfresh.filed hfile).1, hfresh.sound⟩
  | step _ h ih =>
    obtain ⟨hfiled, hline⟩ := owner_step ih.1 h
    exact ⟨hfiled, ih.2.step hline⟩

/-- The terms of an owner, written and queued, are apart, and a queued one starts when the term before
it has ended. -/
structure Sequenced (w : OwnerBilling) : Prop where
  written : w.terms.Pairwise fun a b => a.expiresAt ≤ b.startsAt
  queued : ∀ i j p q, i ≠ j → w.queuedAt i = some p → w.queuedAt j = some q →
    p.after.expiresAt ≤ q.after.startsAt ∨ q.after.expiresAt ≤ p.after.startsAt
  both : ∀ t ∈ w.terms, ∀ i q, w.queuedAt i = some q → t.expiresAt ≤ q.after.startsAt ∨ q.after.expiresAt ≤ t.startsAt
  behindQueued : ∀ i j p q, i ≠ j → w.queuedAt i = some q → w.queuedAt j = some p →
    q.after.expectedSourceOrderId = some j → p.after.expiresAt ≤ q.after.startsAt
  behindCurrent : ∀ i q current, w.queuedAt i = some q → w.subscription = some current →
    q.after.expectedSourceOrderId = current.sourceOrderId → current.expiresAt.getD 0 ≤ q.after.startsAt

theorem sequenced_of_sound (h : w.line.Sound) : Sequenced w := by
  have hwaiting : ∀ {i q}, w.queuedAt i = some q → w.line.waiting i = some q.booked := by
    intro i q hq
    simp [OwnerBilling.line, hq]
  refine ⟨pairwise_map.mp h.chain, ?_, ?_, ?_, ?_⟩
  · exact fun i j p q hij hp hq => h.apart i j p.booked q.booked hij (hwaiting hp) (hwaiting hq)
  · exact fun t ht i q hq => h.clear t.slot (mem_map_of_mem ht) i q.booked (hwaiting hq)
  · exact fun i j p q hij hq hp hsource => h.follows i j q.booked p.booked hij (hwaiting hq) hsource (hwaiting hp)
  · intro i q current hq hcurrent hsource
    have hlive := h.live i q.booked (hwaiting hq) (by simpa [OwnerBilling.line, QueuedRenewal.booked, hcurrent] using hsource)
    simpa [OwnerBilling.line, OwnerBilling.termEnd, QueuedRenewal.booked, hcurrent] using hlive

/-- Where no call works on an order that is neither applied nor queued while a queued renewal waits behind its term, and no
queued renewal is sent to review: the terms are apart, and every queued one starts and is activated when its predecessor has
ended, from what that leaves. -/
theorem renewals_sequenced (hfresh : w.Fresh) (hrun : OwnerRun py Undisturbed w w') :
    Sequenced w' ∧ ∀ id file q draws call s' out, w'.files.get? id = some file → file.queued = some q →
      BillingCall.run py (w'.view id file) draws call = some (s', out) → (w'.store id s').terms ≠ w'.terms →
      ∃ current next, w'.subscription = some current ∧ s'.subscription = some next ∧
        current.sourceOrderId = q.after.expectedSourceOrderId ∧
        q.expectedRevision = some current.revision ∧ next.revision = current.revision + 1 ∧
        next.sourceOrderId = some id ∧ current.expiresAt.getD 0 ≤ q.after.startsAt ∧
        (w'.store id s').terms = w'.terms ++ [⟨id, q.after.startsAt, q.after.expiresAt⟩] := by
  obtain ⟨hfiled, hsound⟩ := owner_run hfresh hrun
  have hsequenced := sequenced_of_sound hsound
  refine ⟨hsequenced, fun id file q draws call s' out hfile hq hcall hterms => ?_⟩
  obtain ⟨hworked, -⟩ := run_worked (hfiled id file hfile) hcall
  cases hworked with
  | kept _ _ hnone => exact absurd (by simp [OwnerBilling.store, hnone]) hterms
  | queued _ _ _ _ hunqueued =>
    rw [hq] at hunqueued
    cases hunqueued
  | term current next startsAt expiresAt hcurrent hnext hsource _ hrevision _ hgiven horigin =>
    rcases horigin with ⟨hnone, -⟩ | ⟨q', hq', rfl, rfl, hpredecessor, hexpected⟩
    · rw [hq] at hnone
      cases hnone
    rw [hq] at hq'
    cases hq'
    refine ⟨current, next, hcurrent, hnext, hpredecessor, hexpected, hrevision, hsource, ?_, ?_⟩
    · have hat : w'.queuedAt id = some q := by simp [OwnerBilling.queuedAt, hfile, hq]
      exact hsequenced.behindCurrent id q current hat hcurrent hpredecessor.symm
    · simp [OwnerBilling.store, hgiven]

/-! ## An order that comes back -/

def sampleRenewal (id : String) (code : Int) : OrderFile where
  order := { samplePack.order with
    id := id, providerOrderCode := code, operation := .renew, expectedSubscriptionRevision := some 1 }
  item := some ⟨"item-" ++ id, 1, some "plan-1", some "pro", .none, .none,
    ⟨some "base_plan", none, some ⟨some ⟨some "fixed_days", .int 1⟩, none, some "end_of_term", none, none⟩, none, .none⟩⟩
  activation := none
  refundPending := false

def sampleOwner : OwnerBilling where
  files := .ofList [("A", sampleRenewal "A" 7), ("C", sampleRenewal "C" 8)]
  payments := []
  events := .empty
  ownerActive := true
  subscription := samplePack.subscription
  sameLogicalPlan := fun _ _ => true
  credits := .empty
  terms := [⟨"order-0", 1, 9000⟩]

def renewalAnswer (code : Int) (amountPaid : Int) (reference : String) : ProviderResult :=
  { sampleAnswer amountPaid with orderCode := .int code, reference := .str reference }

def drawsAt (id : String) (now : Int) : Draws :=
  ⟨"activation-" ++ id, "payment-" ++ id, "grant-" ++ id, now, now, now⟩

def OwnerBilling.runAll (py : PyRuntime) (w : OwnerBilling) (calls : List (String × Int × BillingCall)) : OwnerBilling :=
  calls.foldl (fun w call => match w.files.get? call.1 with
    | none => w
    | some file => match call.2.2.run py (w.view call.1 file) (drawsAt call.1 call.2.1) with
      | none => w
      | some result => w.store call.1 result.1) w

theorem OwnerRun.snoc {P : OwnerBilling → OwnerAct → String → OrderFile → Prop}
    {calls : List (String × Int × BillingCall)} {call : String × Int × BillingCall}
    (hrun : OwnerRun py P w (w.runAll py calls))
    (hallowed : ∀ file, P (w.runAll py calls) .call call.1 file)
    (haddressed : ∀ s, Addressed s call.2.2) : OwnerRun py P w (w.runAll py (calls ++ [call])) := by
  rw [OwnerBilling.runAll, foldl_append, foldl_cons, foldl_nil]
  change OwnerRun py P w (match (w.runAll py calls).files.get? call.1 with
    | none => w.runAll py calls
    | some file => match call.2.2.run py ((w.runAll py calls).view call.1 file) (drawsAt call.1 call.2.1) with
      | none => w.runAll py calls
      | some result => (w.runAll py calls).store call.1 result.1)
  split
  · exact hrun
  rename_i file hfile
  split
  · exact hrun
  · rename_i result hresult
    exact hrun.step (.call _ file _ _ _ result.2 hfile (hallowed file) (haddressed _) hresult)

def bothPaid : List (String × Int × BillingCall) :=
  [("A", 3000, .query (renewalAnswer 7 100000 "FT1") "payos"), ("C", 3000, .query (renewalAnswer 8 100000 "FT2") "payos")]

def comesBack : List (String × Int × BillingCall) :=
  bothPaid ++ [("A", 4000, .query (renewalAnswer 7 99999 "FT3") "payos"),
    ("A", 200000, .query (renewalAnswer 7 100000 "FT1") "payos")]

theorem sampleOwner_fresh : sampleOwner.Fresh := by
  refine ⟨fun id file hfile => ?_, by decide, by decide⟩
  have hall : ∀ entry ∈ sampleOwner.files.entries, entry.2.order.id = entry.1 ∧
      entry.2.order.operation = .renew ∧ entry.2.activation.isNone = true := by decide
  obtain ⟨hid, hrenew, hnone⟩ := hall (id, file) ((Dict.mem_entries_iff _ _ _).mpr hfile)
  exact ⟨hid, hrenew, isNone_iff_eq_none.mp hnone⟩

theorem unawaited_of_entries (h : (w.files.entries.all fun entry =>
    entry.2.queued.all fun q => q.after.expectedSourceOrderId ≠ some id) = true) (j : String)
    (q : QueuedRenewal) (hq : w.queuedAt j = some q) : q.after.expectedSourceOrderId ≠ some id := by
  obtain ⟨file, hfile, hqueued⟩ := bind_eq_some_iff.mp hq
  have hentry := all_eq_true.mp h (j, file) ((Dict.mem_entries_iff _ _ _).mpr hfile)
  rw [hqueued] at hentry
  exact of_decide_eq_true hentry

theorem renewals_sequenced_sample : ∃ w', OwnerRun .plain Undisturbed sampleOwner w' ∧
    (w'.queuedAt "A").map (fun q => (q.after.startsAt, q.after.expiresAt)) = some (9000, 95400) ∧
    (w'.queuedAt "C").map (fun q => (q.after.startsAt, q.after.expiresAt)) = some (95400, 181800) ∧
    Sequenced w' := by
  have hstart : OwnerRun .plain Undisturbed sampleOwner (sampleOwner.runAll .plain []) := .start
  have hfirst : OwnerRun .plain Undisturbed sampleOwner (sampleOwner.runAll .plain (bothPaid.take 1)) :=
    hstart.snoc (fun _ => .inr (.inr (unawaited_of_entries (by decide)))) fun _ => trivial
  have hboth : OwnerRun .plain Undisturbed sampleOwner (sampleOwner.runAll .plain bothPaid) :=
    hfirst.snoc (fun _ => .inr (.inr (unawaited_of_entries (by decide)))) fun _ => trivial
  exact ⟨_, hboth, by decide, by decide, (renewals_sequenced sampleOwner_fresh hboth).1⟩

/-- An order that is found paid after a dispute gets a term behind the renewal that waits for its old one;
that renewal starts before the term of its predecessor has ended, and is activated over it. -/
theorem renewal_before_predecessor_ends : ∃ w₁ w₂, sampleOwner.Fresh ∧
    OwnerRun .plain (fun _ _ _ _ => True) sampleOwner w₁ ∧
    OwnerRun .plain (fun _ _ _ _ => True) sampleOwner w₂ ∧
    (w₁.queuedAt "C").map (fun q => (q.after.expectedSourceOrderId, q.after.startsAt)) = some (some "A", 95400) ∧
    w₁.subscription.map (fun current => (current.sourceOrderId, current.expiresAt)) = some (some "A", some 268200) ∧
    ¬ Sequenced w₁ ∧
    w₂ = w₁.runAll .plain [("C", 200001, .retry)] ∧
    w₂.terms = [⟨"order-0", 1, 9000⟩, ⟨"A", 181800, 268200⟩, ⟨"C", 95400, 181800⟩] := by
  have hrun : ∀ calls : List (String × Int × BillingCall), (∀ call ∈ calls, ∀ s, Addressed s call.2.2) →
      OwnerRun .plain (fun _ _ _ _ => True) sampleOwner (sampleOwner.runAll .plain calls) := by
    intro calls
    induction calls using List.reverseRecOn with
    | nil => exact fun _ => .start
    | append_singleton calls call ih =>
      intro haddressed
      exact (ih fun c hc => haddressed c (mem_append_left _ hc)).snoc (fun _ => trivial) (haddressed call (by simp))
  have hw₁ := hrun comesBack (by simp [comesBack, bothPaid, Addressed])
  have hw₂ := hrun (comesBack ++ [("C", 200001, .retry)]) (by simp [comesBack, bothPaid, Addressed])
  have hqueued : ((sampleOwner.runAll .plain comesBack).queuedAt "C").map
      (fun q => (q.after.expectedSourceOrderId, q.after.startsAt)) = some (some "A", 95400) := by
    decide
  have hcurrent : (sampleOwner.runAll .plain comesBack).subscription.map
      (fun current => (current.sourceOrderId, current.expiresAt)) = some (some "A", some 268200) := by
    decide
  refine ⟨_, _, sampleOwner_fresh, hw₁, hw₂, hqueued, hcurrent, fun hsequenced => ?_, ?_, by decide⟩
  · obtain ⟨q, hq, hqvalues⟩ := map_eq_some_iff.mp hqueued
    obtain ⟨current, hc, hcvalues⟩ := map_eq_some_iff.mp hcurrent
    rw [Prod.mk.injEq] at hqvalues hcvalues
    have hend := hsequenced.behindCurrent "C" q current hq hc (hqvalues.1.trans hcvalues.1.symm)
    rw [hcvalues.2, hqvalues.2] at hend
    exact absurd hend (by decide)
  · rw [OwnerBilling.runAll, foldl_append]
    rfl

end Bidding.Billing
