import Bidding.Billing.Provider

/-!
# The progress of a payment

The order keeps the amounts and the status the provider last reported. Results arrive late, twice and out of order: the
amounts are merged by their maximum, and the status is the newest unless a part is paid.
-/

namespace Bidding.Billing

open Foundations List Option

def mergeResults (py : PyRuntime) (expected : Int) (metadata : Option Fields) (results : List ProviderResult) : Option Fields :=
  results.foldl (fun metadata result => mergePaymentProgress py metadata result expected) metadata

structure Reported where
  amount : Int
  status : String
  deriving DecidableEq

/-- The report of a result, where the merge reads it: an amount the provider gives as an integer within
the expected one. -/
def ProviderResult.reported (py : PyRuntime) (expected : Int) (result : ProviderResult) : Option Reported :=
  match result.amountPaid with
  | .int paid =>
    if expected ≤ 0 ∨ paid < 0 ∨ expected < paid then none
    else some ⟨paid, py.text.upper (result.status.orElse (.str "PENDING")).text⟩
  | _ => none

def reports (py : PyRuntime) (expected : Int) (results : List ProviderResult) : List Reported :=
  results.filterMap (·.reported py expected)

def recordedAmount (metadata : Option Fields) : Int :=
  match (metadata.getD .empty).getValue "amountPaid" with
  | .int paid => paid
  | _ => 0

def recordedProgress (metadata : Option Fields) : Scalar × Scalar × Scalar :=
  let fields := metadata.getD .empty
  (fields.getValue "paymentStatus", fields.getValue "amountPaid", fields.getValue "amountRemaining")

def highestAmount (start : Int) (seen : List Reported) : Int :=
  seen.foldl (fun highest report => max highest report.amount) start

def progressOf (expected : Int) (status : String) (paid : Int) : Scalar × Scalar × Scalar :=
  (.str (if 0 < paid ∧ paid < expected then "UNDERPAID" else status), .int paid, .int (expected - paid))

theorem highestAmount_le_iff (start bound : Int) (seen : List Reported) :
    highestAmount start seen ≤ bound ↔ start ≤ bound ∧ ∀ report ∈ seen, report.amount ≤ bound := by
  unfold highestAmount
  induction seen generalizing start with
  | nil => simp
  | cons report seen ih => rw [foldl_cons, ih, max_le_iff, forall_mem_cons, and_assoc]

theorem start_le_highestAmount (start : Int) (seen : List Reported) : start ≤ highestAmount start seen :=
  ((highestAmount_le_iff start _ seen).1 le_rfl).1

variable {start : Int}

theorem amount_le_highestAmount {seen : List Reported} {report : Reported}
    (h : report ∈ seen) : report.amount ≤ highestAmount start seen :=
  ((highestAmount_le_iff start _ seen).1 le_rfl).2 report h

variable {seen all : List Reported} {result : ProviderResult}

theorem highestAmount_mono (h : seen ⊆ all) : highestAmount start seen ≤ highestAmount start all := by
  apply (highestAmount_le_iff start _ seen).2
  exact ⟨start_le_highestAmount start all, fun report hreport => amount_le_highestAmount (h hreport)⟩

theorem highestAmount_perm (h : seen.Perm all) : highestAmount start seen = highestAmount start all :=
  le_antisymm (highestAmount_mono h.subset) (highestAmount_mono h.symm.subset)

theorem highestAmount_concat (start : Int) (seen : List Reported) (report : Reported) :
    highestAmount start (seen ++ [report]) = max (highestAmount start seen) report.amount := by
  simp [highestAmount]

theorem reported_bounds {py : PyRuntime} {expected : Int} {report : Reported}
    (h : result.reported py expected = some report) : 0 < expected ∧ 0 ≤ report.amount ∧ report.amount ≤ expected := by
  unfold ProviderResult.reported at h
  split at h
  · split at h
    · exact (nomatch h)
    · cases h
      dsimp only
      omega
  · exact (nomatch h)

theorem reports_bounds {py : PyRuntime} {expected : Int} {results : List ProviderResult}
    {report : Reported} (h : report ∈ reports py expected results) :
    0 < expected ∧ 0 ≤ report.amount ∧ report.amount ≤ expected := by
  obtain ⟨result, -, hresult⟩ := mem_filterMap.1 h
  exact reported_bounds hresult

theorem recordedProgress_set (fields : Fields) (status paid remaining : Scalar) :
    recordedProgress (some (((fields.set "paymentStatus" status).set "amountPaid" paid).set
      "amountRemaining" remaining)) = (status, paid, remaining) := by
  simp [recordedProgress, Fields.getValue, Dict.get?_set]

theorem recordedProgress_merge {py : PyRuntime} {expected : Int}
    {report : Reported} (metadata : Option Fields) (h : result.reported py expected = some report) :
    recordedProgress (mergePaymentProgress py metadata result expected)
      = progressOf expected report.status (max (recordedAmount metadata) report.amount) := by
  unfold ProviderResult.reported at h
  unfold mergePaymentProgress
  generalize result.amountPaid = amount at h ⊢
  cases amount with
  | int paid =>
    dsimp only at h ⊢
    split at h
    · exact (nomatch h)
    rename_i hrange
    cases h
    rw [if_neg hrange]
    rw [recordedProgress_set, max_comm]
    rfl
  | _ => exact (nomatch h)

theorem recordedProgress_merge_unread {py : PyRuntime} {expected : Int}
    (metadata : Option Fields) (h : result.reported py expected = none) :
    recordedProgress (mergePaymentProgress py metadata result expected) = recordedProgress metadata := by
  have hunchanged : mergePaymentProgress py metadata result expected
      = if (metadata.getD .empty).isEmpty then none else some (metadata.getD .empty) := by
    unfold ProviderResult.reported at h
    unfold mergePaymentProgress
    generalize result.amountPaid = amount at h ⊢
    cases amount with
    | int paid =>
      dsimp only at h ⊢
      split at h
      · rename_i hrange
        rw [if_pos hrange]
      · exact (nomatch h)
    | _ => rfl
  rw [hunchanged]
  split
  · rename_i hempty
    have hnone := (Dict.isEmpty_iff _).1 hempty
    simp [recordedProgress, Fields.getValue, hnone]
  · rfl

theorem recordedAmount_eq {metadata : Option Fields} {expected paid : Int} {status : String}
    (h : recordedProgress metadata = progressOf expected status paid) : recordedAmount metadata = paid := by
  have hpaid : (metadata.getD .empty).getValue "amountPaid" = .int paid :=
    congrArg (fun progress => progress.2.1) h
  rw [recordedAmount, hpaid]

theorem recordedAmount_congr {metadata other : Option Fields}
    (h : recordedProgress metadata = recordedProgress other) : recordedAmount metadata = recordedAmount other := by
  have hpaid : (metadata.getD .empty).getValue "amountPaid" = (other.getD .empty).getValue "amountPaid" :=
    congrArg (fun progress => progress.2.1) h
  rw [recordedAmount, recordedAmount, hpaid]

variable (py : PyRuntime)

variable (expected : Int)

theorem mergeResults_concat (metadata : Option Fields)
    (results : List ProviderResult) (result : ProviderResult) : mergeResults py expected metadata (results ++ [result])
      = mergePaymentProgress py (mergeResults py expected metadata results) result expected := by
  simp [mergeResults]

theorem reports_concat (results : List ProviderResult) (result : ProviderResult) : reports py expected (results ++ [result])
    = reports py expected results ++ (result.reported py expected).toList := by
  rw [reports, filterMap_append]
  cases h : result.reported py expected <;> simp [reports, h]

theorem recordedAmount_mergeResults (metadata : Option Fields)
    (results : List ProviderResult) : recordedAmount (mergeResults py expected metadata results)
      = highestAmount (recordedAmount metadata) (reports py expected results) := by
  induction results using List.reverseRecOn with
  | nil => rfl
  | append_singleton results result ih =>
    rw [mergeResults_concat, reports_concat]
    cases h : result.reported py expected with
    | none => rw [recordedAmount_congr (recordedProgress_merge_unread _ h), ih, toList_none, append_nil]
    | some report => rw [recordedAmount_eq (recordedProgress_merge _ h), ih, toList_some, highestAmount_concat]

theorem recordedProgress_mergeResults_unread {py : PyRuntime} {expected : Int} (metadata : Option Fields)
    {results : List ProviderResult} (h : reports py expected results = []) :
    recordedProgress (mergeResults py expected metadata results) = recordedProgress metadata := by
  induction results using List.reverseRecOn with
  | nil => rfl
  | append_singleton results result ih =>
    rw [reports_concat, append_eq_nil_iff] at h
    rw [mergeResults_concat, recordedProgress_merge_unread _ (toList_eq_nil_iff.1 h.2), ih h.1]

theorem recordedProgress_mergeResults {py : PyRuntime} {expected : Int} (metadata : Option Fields)
    {results : List ProviderResult} {seen : List Reported} {report : Reported}
    (h : reports py expected results = seen ++ [report]) :
    recordedProgress (mergeResults py expected metadata results)
      = progressOf expected report.status (highestAmount (recordedAmount metadata) (seen ++ [report])) := by
  induction results using List.reverseRecOn with
  | nil => exact absurd h (by simp [reports])
  | append_singleton results result ih =>
    rw [reports_concat] at h
    rw [mergeResults_concat]
    cases hresult : result.reported py expected with
    | none =>
      rw [hresult, toList_none, append_nil] at h
      rw [recordedProgress_merge_unread _ hresult, ih h]
    | some last =>
      rw [hresult, toList_some] at h
      obtain ⟨rfl, hlast⟩ := append_inj' h rfl
      obtain rfl : last = report := by simpa using hlast
      rw [recordedProgress_merge _ hresult, recordedAmount_mergeResults, highestAmount_concat]

/-! ## What the customer is shown -/

/-- A status agrees with the amount paid. -/
structure StatusAgrees (expected paid : Int) (status : String) : Prop where
  whole : expected ≤ paid → status ∈ paidStatuses
  part : 0 < paid → paid < expected → status = "UNDERPAID"
  nothing : paid ≤ 0 → status ∉ paidStatuses ∧ status ≠ "UNDERPAID"

def ShowsProgress (expected : Int) (metadata : Option Fields) : Prop :=
  ∃ status paid, recordedProgress metadata = (.str status, .int paid, .int (expected - paid)) ∧
    StatusAgrees expected paid status

/-- The progress never regresses: in whatever order the results are merged, the amount never
decreases, every progress shown is sound, and the last one is the same. -/
structure NeverRegresses (py : PyRuntime) (expected : Int) (metadata : Option Fields)
    (results : List ProviderResult) : Prop where
  grows : ∀ order, order.Perm results → ∀ earlier later, earlier <+: later → later <+: order →
    recordedAmount (mergeResults py expected metadata earlier) ≤ recordedAmount (mergeResults py expected metadata later)
  shown : ∀ order, order.Perm results → ∀ merged, merged <+: order → reports py expected merged ≠ [] →
    ShowsProgress expected (mergeResults py expected metadata merged)
  sameInAnyOrder : ∀ order, order.Perm results → recordedProgress (mergeResults py expected metadata order)
      = recordedProgress (mergeResults py expected metadata results)

/-- The reports are consistent with the amounts: where the whole amount is paid every report says so,
a report of nothing does not say that something is paid, and unless a part is paid all of them carry
one status. -/
structure ConsistentReports (expected start : Int) (seen : List Reported) : Prop where
  whole : expected ≤ highestAmount start seen → ∀ report ∈ seen, report.status ∈ paidStatuses
  nothing : start ≤ 0 → ∀ report ∈ seen, report.amount = 0 → report.status ∉ paidStatuses ∧ report.status ≠ "UNDERPAID"
  oneStatus : ¬ (0 < highestAmount start seen ∧ highestAmount start seen < expected) →
    ∀ report ∈ seen, ∀ other ∈ seen, report.status = other.status

section Orders

variable {py : PyRuntime} {expected : Int} {metadata : Option Fields} {results : List ProviderResult}
  {order : List ProviderResult}

theorem reports_perm (h : order.Perm results) : (reports py expected order).Perm (reports py expected results) :=
  h.filterMap _

theorem reports_front {merged : List ProviderResult} (h : merged <+: order) :
    reports py expected merged <+: reports py expected order :=
  h.filterMap _

theorem exists_order_last {report : Reported} (h : report ∈ reports py expected results) :
    ∃ order : List ProviderResult, order.Perm results ∧
      ∃ seen, reports py expected order = seen ++ [report] := by
  obtain ⟨result, hmem, hresult⟩ := mem_filterMap.1 h
  obtain ⟨before, after, rfl⟩ := append_of_mem hmem
  refine ⟨before ++ after ++ [result], ?_, reports py expected (before ++ after), ?_⟩
  · rw [append_assoc]
    exact List.Perm.append_left before (perm_append_singleton result after)
  · rw [reports_concat, hresult, toList_some]

theorem exists_order_first {report : Reported} (h : report ∈ reports py expected results) :
    ∃ order merged : List ProviderResult, order.Perm results ∧ merged <+: order ∧
      reports py expected merged = [report] := by
  obtain ⟨result, hmem, hresult⟩ := mem_filterMap.1 h
  obtain ⟨before, after, rfl⟩ := append_of_mem hmem
  refine ⟨result :: (before ++ after), [result], perm_middle.symm, ?_, ?_⟩
  · exact ⟨before ++ after, rfl⟩
  · simp [reports, hresult]

theorem recordedProgress_last {report : Reported}
    (horder : order.Perm results) (hlast : reports py expected order = seen ++ [report]) :
    recordedProgress (mergeResults py expected metadata order) = progressOf expected report.status
      (highestAmount (recordedAmount metadata) (reports py expected results)) := by
  rw [recordedProgress_mergeResults metadata hlast, ← hlast, highestAmount_perm (reports_perm horder)]

theorem statusAgrees_of_shows {status : String} {paid : Int} {shown : Option Fields}
    (hshows : ShowsProgress expected shown) (hshown : recordedProgress shown = progressOf expected status paid) :
    StatusAgrees expected paid (if 0 < paid ∧ paid < expected then "UNDERPAID" else status) := by
  obtain ⟨found, amount, hfound, hagrees⟩ := hshows
  rw [hshown, progressOf, Prod.mk.injEq, Prod.mk.injEq] at hfound
  obtain ⟨hstatus, hamount, -⟩ := hfound
  rw [Scalar.str.inj hstatus, Scalar.int.inj hamount]
  exact hagrees

theorem consistentReports_of_neverRegresses (h : NeverRegresses py expected metadata results) :
    ConsistentReports expected (recordedAmount metadata) (reports py expected results) := by
  refine ⟨?_, ?_, ?_⟩
  · -- the report comes last, after the whole amount was paid
    intro hwhole report hreport
    obtain ⟨order, horder, seen, hlast⟩ := exists_order_last hreport
    have hshows := h.shown order horder order (prefix_refl order) (by simp [hlast])
    have hagrees := statusAgrees_of_shows hshows (recordedProgress_last horder hlast)
    rw [if_neg (by omega)] at hagrees
    exact hagrees.whole hwhole
  · -- the report comes first, before anything else was paid
    intro hstart report hreport hzero
    obtain ⟨order, merged, horder, hmerged, honly⟩ := exists_order_first hreport
    have hshows := h.shown order horder merged hmerged (by simp [honly])
    have hpaid : highestAmount (recordedAmount metadata) [report] ≤ 0 := by
      apply (highestAmount_le_iff _ _ _).2
      simpa [hzero] using hstart
    have hagrees := statusAgrees_of_shows hshows (@recordedProgress_mergeResults py expected metadata _ [] _ honly)
    rw [if_neg (by simp only [nil_append]; omega)] at hagrees
    exact hagrees.nothing hpaid
  · -- either of the two reports comes last
    intro hpart report hreport other hother
    obtain ⟨order, horder, seen, hlast⟩ := exists_order_last hreport
    obtain ⟨order', horder', seen', hlast'⟩ := exists_order_last hother
    have hsame := (h.sameInAnyOrder order horder).trans (h.sameInAnyOrder order' horder').symm
    rw [recordedProgress_last horder hlast, recordedProgress_last horder' hlast', progressOf, progressOf,
      if_neg hpart, if_neg hpart] at hsame
    exact Scalar.str.inj (congrArg Prod.fst hsame)

theorem neverRegresses_of_consistentReports
    (h : ConsistentReports expected (recordedAmount metadata) (reports py expected results)) :
    NeverRegresses py expected metadata results := by
  refine ⟨?_, ?_, ?_⟩
  · intro order horder earlier later hearlier hlater
    rw [recordedAmount_mergeResults, recordedAmount_mergeResults]
    exact highestAmount_mono (reports_front hearlier).subset
  · intro order horder merged hmerged hsome
    obtain ⟨seen, report, hlast⟩ := eq_nil_or_concat' (reports py expected merged) |>.resolve_left hsome
    have hsubset : seen ++ [report] ⊆ reports py expected results := by
      rw [← hlast]
      intro other hother
      exact (reports_perm horder).subset ((reports_front hmerged).subset hother)
    have hreport : report ∈ reports py expected results := hsubset (by simp)
    have hbounds := reports_bounds hreport
    have hamount : report.amount ≤ highestAmount (recordedAmount metadata) (seen ++ [report]) :=
      amount_le_highestAmount (by simp)
    have hstart := start_le_highestAmount (recordedAmount metadata) (seen ++ [report])
    have hhighest : highestAmount (recordedAmount metadata) (seen ++ [report])
        ≤ highestAmount (recordedAmount metadata) (reports py expected results) :=
      highestAmount_mono hsubset
    refine ⟨_, _, recordedProgress_mergeResults metadata hlast, ?_, ?_, ?_⟩
    · intro hwhole
      rw [if_neg (by omega)]
      exact h.whole (by omega) report hreport
    · intro hpos hless
      rw [if_pos ⟨hpos, hless⟩]
    · intro hnothing
      rw [if_neg (by omega)]
      exact h.nothing (by omega) report hreport (by omega)
  · intro order horder
    have hperm : (reports py expected order).Perm (reports py expected results) :=
      reports_perm horder
    by_cases hnone : reports py expected results = []
    · have hnone' : reports py expected order = [] := by
        simpa [hnone] using hperm
      rw [recordedProgress_mergeResults_unread metadata hnone', recordedProgress_mergeResults_unread metadata hnone]
    · have hsome : reports py expected order ≠ [] := by
        intro hnil
        exact hnone (by simpa [hnil] using hperm)
      obtain ⟨seen, report, hlast⟩ := (eq_nil_or_concat' _).resolve_left hsome
      obtain ⟨seen', other, hlast'⟩ := (eq_nil_or_concat' _).resolve_left hnone
      rw [recordedProgress_last horder hlast, recordedProgress_last (List.Perm.refl results) hlast', progressOf, progressOf]
      by_cases hpart : 0 < highestAmount (recordedAmount metadata) (reports py expected results) ∧
          highestAmount (recordedAmount metadata) (reports py expected results) < expected
      · rw [if_pos hpart, if_pos hpart]
      · have hreport : report ∈ reports py expected results :=
          (reports_perm horder).subset (by simp [hlast])
        rw [h.oneStatus hpart report hreport other (by simp [hlast'])]

end Orders

/-- The progress of a payment never regresses exactly when the results the provider reports are
consistent with the amounts they report: a stale result after the whole amount shows its own status. -/
theorem neverRegresses_iff (py : PyRuntime) (expected : Int) (metadata : Option Fields)
    (results : List ProviderResult) : NeverRegresses py expected metadata results ↔
      ConsistentReports expected (recordedAmount metadata) (reports py expected results) :=
  ⟨consistentReports_of_neverRegresses, neverRegresses_of_consistentReports⟩

/-- A result with a status and an amount, and nothing else. -/
def ProviderResult.observed (status : String) (paid : Int) : ProviderResult :=
  { status := .str status
    amountPaid := .int paid
    amount := .none
    orderCode := .none
    paymentLinkId := .none
    id := .none
    reference := .none
    transactionDateTime := .none
    createdAt := .none }

/-- An order paid in full is shown as pending once a stale result is merged. -/
theorem paid_order_shown_pending :
    recordedProgress (mergeResults .plain 2000 none [.observed "PAID" 2000, .observed "PENDING" 0])
        = (.str "PENDING", .int 2000, .int 0) ∧
      ¬ NeverRegresses .plain 2000 none [.observed "PAID" 2000, .observed "PENDING" 0] := by
  have hpending : recordedProgress (mergeResults .plain 2000 none [.observed "PAID" 2000, .observed "PENDING" 0])
        = (.str "PENDING", .int 2000, .int 0) := by decide
  refine ⟨hpending, ?_⟩
  intro h
  obtain ⟨status, paid, hshown, hagrees⟩ :=
    h.shown _ (List.Perm.refl _) _ (prefix_refl _) (by decide)
  rw [hpending, Prod.mk.injEq, Prod.mk.injEq] at hshown
  obtain ⟨hstatus, hpaid, -⟩ := hshown
  have hwhole := hagrees.whole (Scalar.int.inj hpaid).le
  rw [← Scalar.str.inj hstatus] at hwhole
  exact absurd hwhole (by decide)

end Bidding.Billing
