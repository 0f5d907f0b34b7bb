import Bidding.Foundations.Totals

/-!
# The daily figures of revenue

The refresh of a range of business days deletes the rows of these days and writes one row of `revenue_daily` for each group
of settled transactions. The fees of a group are a cost under a key without the release and the SKU: the costs add up
exactly when no two groups with fees share a key.
-/

namespace Bidding.Analytics

open Foundations List Dict

inductive OwnerKind where
  | account
  | organization
  deriving DecidableEq

inductive TransactionType where
  | payment
  | refund
  deriving DecidableEq

inductive TransactionStatus where
  | verified
  | settled
  | failed
  deriving DecidableEq

/-- What is read of the order of a transaction: the plan version and the SKU of its first item. -/
structure Order where
  releaseId : String
  ownerKind : OwnerKind
  plan : Option (String × String)
  skuCode : Option String

/-- A row of `payment_transactions`. It was created `createdMicros` microseconds after the epoch. -/
structure Transaction where
  orderId : String
  transactionType : TransactionType
  status : TransactionStatus
  verifiedPaidAmount : ℕ
  feeAmount : ℕ
  netSettledAmount : ℕ
  providerOccurredAt : Option ℤ
  createdMicros : ℕ

structure RevenueKey where
  usageDate : ℤ
  releaseId : String
  ownerKind : OwnerKind
  planCode : String
  variant : String
  skuCode : String
  deriving DecidableEq

structure CostKey where
  usageDate : ℤ
  ownerKind : OwnerKind
  workspaceId : String
  planCode : String
  variant : String
  costType : String
  source : String
  deriving DecidableEq

structure RevenueRow where
  grossRevenue : ℕ
  netSettledRevenue : ℕ
  refundAmount : ℕ
  paymentFee : ℕ
  paidOrders : ℕ

structure CostRow where
  releaseId : Option String
  quantity : ℕ
  estimatedCost : ℕ
  costStatus : String

/-- `revenue_daily` and `cost_usage_daily`. -/
structure Figures where
  revenue : Dict RevenueKey RevenueRow
  costs : Dict CostKey CostRow

/-- The business days of a refresh, both inclusive, and the seconds it reads: `[startEpoch, endEpoch)`. -/
structure RefreshRange where
  start : ℤ
  stop : ℤ
  startEpoch : ℤ
  endEpoch : ℤ

def RefreshRange.contains (range : RefreshRange) (day : ℤ) : Bool := range.start ≤ day && day ≤ range.stop

/-- What the loop collects under a key; `orders` is a set. -/
structure GroupValues where
  gross : ℕ
  net : ℕ
  refund : ℕ
  fee : ℕ
  orders : List String

def GroupValues.empty : GroupValues := ⟨0, 0, 0, 0, []⟩

namespace Transaction

variable (t : Transaction)

/-- `status IN ('verified', 'settled')`. -/
def isFact : Bool := t.status ≠ .failed

/-- `COALESCE(provider_occurred_at, EXTRACT(EPOCH FROM created_at)::BIGINT)`; the cast rounds. -/
def epoch : ℤ := t.providerOccurredAt.getD ((t.createdMicros + 500000) / 1000000)

def selected (range : RefreshRange) : Bool :=
  t.isFact && range.startEpoch ≤ t.epoch && t.epoch < range.endEpoch

/-- The seconds behind `provider_occurred_at or created_at`: a zero is no time. -/
def occurredAt : ℤ :=
  match t.providerOccurredAt with
  | some seconds => if seconds = 0 then t.createdMicros / 1000000 else seconds
  | none => t.createdMicros / 1000000

def isPayment : Bool := t.transactionType = .payment

/-- `net_settled_amount or amount`. -/
def net : ℕ := if t.netSettledAmount = 0 then t.verifiedPaidAmount else t.netSettledAmount

end Transaction

-- `_local_date` of a time in seconds, as the number of the day
variable (localDate : ℤ → ℤ)

def Transaction.businessDay (t : Transaction) : ℤ := localDate t.occurredAt

variable (orders : String → Order)

def revenueKey (t : Transaction) : RevenueKey where
  usageDate := t.businessDay localDate
  releaseId := (orders t.orderId).releaseId
  ownerKind := (orders t.orderId).ownerKind
  planCode := ((orders t.orderId).plan.map Prod.fst).getD ""
  variant := ((orders t.orderId).plan.map Prod.snd).getD ""
  skuCode := (orders t.orderId).skuCode.getD ""

def RevenueKey.cost (key : RevenueKey) : CostKey where
  usageDate := key.usageDate
  ownerKind := key.ownerKind
  workspaceId := ""
  planCode := key.planCode
  variant := key.variant
  costType := "payment_fee"
  source := "payment_transactions"

def GroupValues.add (t : Transaction) (target : GroupValues) : GroupValues :=
  if t.isPayment then
    { target with
      gross := target.gross + t.verifiedPaidAmount
      net := target.net + t.net
      fee := target.fee + t.feeAmount
      orders := if t.orderId ∈ target.orders then target.orders else target.orders ++ [t.orderId] }
  else { target with refund := target.refund + t.verifiedPaidAmount }

def grouped (facts : List Transaction) : Dict RevenueKey GroupValues :=
  facts.foldl (fun groups t =>
    groups.set (revenueKey localDate orders t)
      (GroupValues.add t ((groups.get? (revenueKey localDate orders t)).getD .empty))) .empty

def GroupValues.revenueRow (values : GroupValues) : RevenueRow where
  grossRevenue := values.gross
  netSettledRevenue := values.net - values.refund
  refundAmount := values.refund
  paymentFee := values.fee
  paidOrders := values.orders.length

/-- The row `_upsert_cost` writes for the fees of a group. -/
def GroupValues.costRow (releaseId : String) (values : GroupValues) : CostRow where
  releaseId := if releaseId = "" then none else some releaseId
  quantity := values.orders.length
  estimatedCost := values.fee
  costStatus := "available"

def writeGroup (tables : Figures) (group : RevenueKey × GroupValues) : Figures where
  revenue := tables.revenue.set group.1 group.2.revenueRow
  costs :=
    if group.2.fee ≠ 0 then tables.costs.set group.1.cost (group.2.costRow group.1.releaseId) else tables.costs

def refreshRevenue (range : RefreshRange) (transactions : List Transaction) (tables : Figures) : Figures :=
  (grouped localDate orders (transactions.filter (Transaction.selected · range))).entries.foldl writeGroup tables

/-- The rows of the range are deleted first. -/
def deleteRange (range : RefreshRange) (tables : Figures) : Figures where
  revenue := tables.revenue.filterKeys fun key => !range.contains key.usageDate
  costs := tables.costs.filterKeys fun key => !range.contains key.usageDate

/-- What `refresh_product_analytics` does to the rows of revenue and of payment fees. -/
def refreshProductAnalytics (range : RefreshRange) (transactions : List Transaction) (tables : Figures) : Figures :=
  refreshRevenue localDate orders range transactions (deleteRange range tables)

/-! ### The rows and the facts of a day -/

def RevenueKey.isOf (day : ℤ) (kind : OwnerKind) (key : RevenueKey) : Bool :=
  key.usageDate = day && key.ownerKind = kind

def CostKey.isFeeOf (day : ℤ) (kind : OwnerKind) (key : CostKey) : Bool :=
  key.usageDate = day && key.ownerKind = kind && key.costType = "payment_fee"

/-- The verified and settled transactions of a business day and an owner kind. -/
def factsOf (transactions : List Transaction) (day : ℤ) (kind : OwnerKind) : List Transaction :=
  transactions.filter fun t => t.isFact && (revenueKey localDate orders t).isOf day kind

def Transaction.paid (t : Transaction) : ℕ := if t.isPayment then t.verifiedPaidAmount else 0

def Transaction.refunded (t : Transaction) : ℕ := if t.isPayment then 0 else t.verifiedPaidAmount

def Transaction.fee (t : Transaction) : ℕ := if t.isPayment then t.feeAmount else 0

/-- The rows of a day and an owner kind add up to the facts. -/
structure AddsUp (facts : List Transaction) (day : ℤ) (kind : OwnerKind) (tables : Figures) : Prop where
  gross : tables.revenue.total (RevenueKey.isOf day kind) RevenueRow.grossRevenue = (facts.map Transaction.paid).sum
  refund :
    tables.revenue.total (RevenueKey.isOf day kind) RevenueRow.refundAmount = (facts.map Transaction.refunded).sum
  fee : tables.revenue.total (RevenueKey.isOf day kind) RevenueRow.paymentFee = (facts.map Transaction.fee).sum
  cost : tables.costs.total (CostKey.isFeeOf day kind) CostRow.estimatedCost = (facts.map Transaction.fee).sum

/-- The facts that the refresh does not read move no money. -/
def ReadsAll (range : RefreshRange) (facts : List Transaction) : Prop :=
  ∀ t ∈ facts, ¬ t.selected range → t.verifiedPaidAmount = 0 ∧ t.fee = 0

/-- Payments with fees of one day, owner kind, plan and variant agree in release and SKU. -/
def FeesApart (range : RefreshRange) (transactions : List Transaction) (day : ℤ) (kind : OwnerKind) : Prop :=
  ∀ t ∈ transactions, ∀ t' ∈ transactions, t.selected range → t'.selected range →
    (revenueKey localDate orders t).isOf day kind → 0 < t.fee → 0 < t'.fee →
    (revenueKey localDate orders t).cost = (revenueKey localDate orders t').cost →
    revenueKey localDate orders t = revenueKey localDate orders t'

/-! ### The groups -/

section Rows

variable {range : RefreshRange} {transactions : List Transaction} {tables : Figures} {day : ℤ} {kind : OwnerKind}

section Grouped

variable (facts : List Transaction)

theorem grouped_total {measure : GroupValues → ℕ} {weight : Transaction → ℕ} (hempty : measure .empty = 0)
    (hadd : ∀ t values, measure (GroupValues.add t values) = measure values + weight t) (p : RevenueKey → Bool) :
    (grouped localDate orders facts).total p measure =
      ((facts.filter fun t => p (revenueKey localDate orders t)).map weight).sum := by
  unfold grouped
  rw [total_foldl_add hempty hadd, total_of_absent (fun _ _ => rfl), Nat.zero_add]

theorem gross_add (t : Transaction) (values : GroupValues) : (values.add t).gross = values.gross + t.paid := by
  unfold GroupValues.add Transaction.paid
  split <;> rfl

theorem refund_add (t : Transaction) (values : GroupValues) :
    (values.add t).refund = values.refund + t.refunded := by
  unfold GroupValues.add Transaction.refunded
  split <;> rfl

theorem fee_add (t : Transaction) (values : GroupValues) : (values.add t).fee = values.fee + t.fee := by
  unfold GroupValues.add Transaction.fee
  split <;> rfl

/-- The groups with fees are those of the payments with fees. -/
theorem exists_group_iff (key : RevenueKey) :
    (∃ values, (key, values) ∈ (grouped localDate orders facts).entries ∧ values.fee ≠ 0) ↔
      ∃ t ∈ facts, 0 < t.fee ∧ revenueKey localDate orders t = key := by
  have htotal := grouped_total localDate orders facts rfl fee_add (· = key)
  rw [total_key] at htotal
  have hpos : (∃ values, (key, values) ∈ (grouped localDate orders facts).entries ∧ values.fee ≠ 0) ↔
      0 < (((grouped localDate orders facts).get? key).map GroupValues.fee).getD 0 := by
    simp only [mem_entries_iff]
    cases (grouped localDate orders facts).get? key with
    | none => simp
    | some values => simp [Nat.pos_iff_ne_zero]
  rw [hpos, htotal, sum_pos_iff]
  simp only [mem_filter, decide_eq_true_eq]
  constructor
  · rintro ⟨t, ⟨hmem, hkey⟩, hfee⟩
    exact ⟨t, hmem, hfee, hkey⟩
  · rintro ⟨t, hmem, hfee, hkey⟩
    exact ⟨t, ⟨hmem, hkey⟩, hfee⟩

end Grouped

/-- The costs a row of groups is written to: those with fees. -/
def feeWrites (entries : List (RevenueKey × GroupValues)) : List (CostKey × CostRow) :=
  (entries.filter fun e => e.2.fee ≠ 0).map fun e => (e.1.cost, e.2.costRow e.1.releaseId)

theorem foldl_writeGroup (entries : List (RevenueKey × GroupValues)) :
    entries.foldl writeGroup tables =
      ⟨(entries.map fun e => (e.1, e.2.revenueRow)).foldl (fun d e => d.set e.1 e.2) tables.revenue,
        (feeWrites entries).foldl (fun d e => d.set e.1 e.2) tables.costs⟩ := by
  induction entries generalizing tables with
  | nil => rfl
  | cons e entries ih =>
    rw [foldl_cons, ih]
    unfold writeGroup feeWrites
    by_cases hfee : e.2.fee = 0
    · simp [hfee]
    · simp [hfee]

theorem absent_deleteRange (hday : range.contains day) :
    (∀ key, RevenueKey.isOf day kind key → (deleteRange range tables).revenue.get? key = none) ∧
      ∀ key, CostKey.isFeeOf day kind key → (deleteRange range tables).costs.get? key = none := by
  unfold deleteRange RevenueKey.isOf CostKey.isFeeOf
  refine ⟨fun key hkey => ?_, fun key hkey => ?_⟩
  · simp only [Bool.and_eq_true, decide_eq_true_eq] at hkey
    rw [Dict.get?_filterKeys, hkey.1, hday]
    rfl
  · simp only [Bool.and_eq_true, decide_eq_true_eq] at hkey
    rw [Dict.get?_filterKeys, hkey.1.1, hday]
    rfl

section Written

variable (groups : Dict RevenueKey GroupValues)

theorem revenue_total {column : RevenueRow → ℕ} {measure : GroupValues → ℕ}
    (hcolumn : ∀ values : GroupValues, column values.revenueRow = measure values)
    (habsent : ∀ key, RevenueKey.isOf day kind key → tables.revenue.get? key = none) :
    (groups.entries.foldl writeGroup tables).revenue.total (RevenueKey.isOf day kind) column =
      groups.total (RevenueKey.isOf day kind) measure := by
  have hkeys : (groups.entries.map fun e => (e.1, e.2.revenueRow)).map Prod.fst = groups.entries.map Prod.fst := by
    rw [map_map]
    rfl
  rw [foldl_writeGroup, total_foldl_set_eq, total_of_absent habsent, Nat.zero_add, sumOver_map]
  · simp only [hcolumn]
    rfl
  · have hnodup := groups.nodupKeys
    rw [← hkeys] at hnodup
    exact hnodup.sublist (filter_sublist.map _)
  · exact fun e _ hp => habsent e.1 hp

theorem isFeeOf_cost (key : RevenueKey) : CostKey.isFeeOf day kind key.cost = RevenueKey.isOf day kind key := by
  unfold CostKey.isFeeOf RevenueKey.isOf
  rw [Bool.eq_iff_iff, Bool.and_eq_true, decide_eq_true_eq]
  exact and_iff_left rfl

theorem sumOver_feeWrites :
    sumOver (CostKey.isFeeOf day kind) CostRow.estimatedCost (feeWrites groups.entries) =
      groups.total (RevenueKey.isOf day kind) GroupValues.fee := by
  unfold feeWrites total
  rw [sumOver_map]
  simp only [isFeeOf_cost]
  rw [filter_comm]
  refine (sum_filter_eq_iff (fun e : RevenueKey × GroupValues => decide (e.2.fee ≠ 0)) _ _).mpr fun e _ hfee => ?_
  rw [decide_eq_true_eq, not_not] at hfee
  exact hfee

/-- No two groups with fees share a key of the costs. -/
theorem cost_total_iff (habsent : ∀ key, CostKey.isFeeOf day kind key → tables.costs.get? key = none) :
    (groups.entries.foldl writeGroup tables).costs.total (CostKey.isFeeOf day kind) CostRow.estimatedCost =
        groups.total (RevenueKey.isOf day kind) GroupValues.fee ↔
      ∀ e ∈ groups.entries, ∀ e' ∈ groups.entries, e.2.fee ≠ 0 → e'.2.fee ≠ 0 →
        RevenueKey.isOf day kind e.1 → e.1.cost = e'.1.cost → e.1 = e'.1 := by
  have hzero := total_of_absent (f := CostRow.estimatedCost) habsent
  have hsum : sumOver (CostKey.isFeeOf day kind) CostRow.estimatedCost (feeWrites groups.entries) =
      groups.total (RevenueKey.isOf day kind) GroupValues.fee := sumOver_feeWrites groups
  have hfilter : ((feeWrites groups.entries).filter fun e => CostKey.isFeeOf day kind e.1).map Prod.fst =
      (((groups.entries.filter fun e => e.2.fee ≠ 0).filter fun e => RevenueKey.isOf day kind e.1).map
        Prod.fst).map RevenueKey.cost := by
    unfold feeWrites
    rw [filter_map, map_map, map_map]
    simp only [Function.comp_def, isFeeOf_cost]
  have hkeys : (((groups.entries.filter fun e => e.2.fee ≠ 0).filter fun e => RevenueKey.isOf day kind e.1).map
      Prod.fst).Nodup :=
    groups.nodupKeys.sublist ((filter_sublist.trans filter_sublist).map _)
  rw [foldl_writeGroup, ← hsum]
  refine ⟨fun htotal => ?_, fun hapart => ?_⟩
  · have hreached : tables.costs.total (CostKey.isFeeOf day kind) CostRow.estimatedCost +
          sumOver (CostKey.isFeeOf day kind) CostRow.estimatedCost (feeWrites groups.entries) ≤
        ((feeWrites groups.entries).foldl (fun d e => d.set e.1 e.2) tables.costs).total
          (CostKey.isFeeOf day kind) CostRow.estimatedCost := by
      rw [hzero, Nat.zero_add]
      exact Nat.le_of_eq htotal.symm
    have hnodup := (nodup_of_total ?_ ?_ hreached).1
    · rw [hfilter] at hnodup
      intro e he e' he' hfee hfee' hof hcost
      have hof' : RevenueKey.isOf day kind e'.1 := by
        rw [← isFeeOf_cost, ← hcost, isFeeOf_cost]
        exact hof
      apply inj_on_of_nodup_map hnodup
      · simp only [mem_map, mem_filter, decide_eq_true_eq]
        exact ⟨e, ⟨⟨he, hfee⟩, hof⟩, rfl⟩
      · simp only [mem_map, mem_filter, decide_eq_true_eq]
        exact ⟨e', ⟨⟨he', hfee'⟩, hof'⟩, rfl⟩
      · exact hcost
    · intro w hw
      obtain ⟨e, he, rfl⟩ := mem_map.mp hw
      exact Nat.pos_of_ne_zero (of_decide_eq_true (mem_filter.mp he).2)
    · intro key row hkey hget
      rw [habsent key hkey] at hget
      cases hget
  · rw [total_foldl_set_eq, hzero, Nat.zero_add]
    · rw [hfilter]
      apply List.Nodup.map_on _ hkeys
      intro k hk k' hk' hcost
      simp only [mem_map, mem_filter, decide_eq_true_eq] at hk hk'
      obtain ⟨e, ⟨⟨he, hfee⟩, hof⟩, rfl⟩ := hk
      obtain ⟨e', ⟨⟨he', hfee'⟩, -⟩, rfl⟩ := hk'
      exact hapart e he e' he' hfee hfee' hof hcost
    · exact fun e _ hp => habsent e.1 hp

end Written

/-- The transactions of a day and an owner kind that the refresh reads are those of its facts. -/
theorem filter_selected :
    ((transactions.filter (Transaction.selected · range)).filter fun t =>
        (revenueKey localDate orders t).isOf day kind) =
      (factsOf localDate orders transactions day kind).filter (Transaction.selected · range) := by
  unfold factsOf
  rw [filter_filter, filter_filter]
  apply filter_congr
  intro t _
  unfold Transaction.selected
  cases t.isFact <;> simp [Bool.and_comm]

theorem verifiedPaidAmount_eq_zero {t : Transaction} (hpaid : t.paid = 0) (hrefunded : t.refunded = 0) :
    t.verifiedPaidAmount = 0 := by
  unfold Transaction.paid at hpaid
  unfold Transaction.refunded at hrefunded
  cases h : t.isPayment with
  | true => simpa [h] using hpaid
  | false => simpa [h] using hrefunded

variable (transactions tables kind)

theorem revenue_written (hday : range.contains day) {column : RevenueRow → ℕ} {measure : GroupValues → ℕ} {weight : Transaction → ℕ}
    (hempty : measure .empty = 0)
    (hadd : ∀ t values, measure (GroupValues.add t values) = measure values + weight t)
    (hcolumn : ∀ values : GroupValues, column values.revenueRow = measure values) :
    (refreshProductAnalytics localDate orders range transactions tables).revenue.total
        (RevenueKey.isOf day kind) column =
      (((factsOf localDate orders transactions day kind).filter (Transaction.selected · range)).map weight).sum := by
  unfold refreshProductAnalytics refreshRevenue
  rw [revenue_total _ hcolumn (absent_deleteRange hday).1, grouped_total _ _ _ hempty hadd, filter_selected]

theorem cost_written_iff (hday : range.contains day) :
    (refreshProductAnalytics localDate orders range transactions tables).costs.total
        (CostKey.isFeeOf day kind) CostRow.estimatedCost =
        (((factsOf localDate orders transactions day kind).filter (Transaction.selected · range)).map
          Transaction.fee).sum ↔
      FeesApart localDate orders range transactions day kind := by
  unfold refreshProductAnalytics refreshRevenue
  rw [← filter_selected, ← grouped_total _ _ _ rfl fee_add, cost_total_iff _ (absent_deleteRange hday).2]
  refine ⟨fun h t ht t' ht' hread hread' hof hfee hfee' hcost => ?_, fun h e he e' he' hfee hfee' hof hcost => ?_⟩
  · obtain ⟨values, hmem, hpos⟩ :=
      (exists_group_iff localDate orders (transactions.filter (Transaction.selected · range)) _).mpr
        ⟨t, mem_filter.mpr ⟨ht, hread⟩, hfee, rfl⟩
    obtain ⟨values', hmem', hpos'⟩ :=
      (exists_group_iff localDate orders (transactions.filter (Transaction.selected · range)) _).mpr
        ⟨t', mem_filter.mpr ⟨ht', hread'⟩, hfee', rfl⟩
    exact h _ hmem _ hmem' hpos hpos' hof hcost
  · obtain ⟨t, ht, hpos, hkey⟩ := (exists_group_iff _ _ _ e.1).mp ⟨e.2, he, hfee⟩
    obtain ⟨t', ht', hpos', hkey'⟩ := (exists_group_iff _ _ _ e'.1).mp ⟨e'.2, he', hfee'⟩
    obtain ⟨ht, hread⟩ := mem_filter.mp ht
    obtain ⟨ht', hread'⟩ := mem_filter.mp ht'
    rw [← hkey, ← hkey'] at hcost ⊢
    exact h t ht t' ht' hread hread' (hkey ▸ hof) hpos hpos' hcost

theorem addsUp_iff (hday : range.contains day) :
    AddsUp (factsOf localDate orders transactions day kind) day kind
        (refreshProductAnalytics localDate orders range transactions tables) ↔
      ReadsAll range (factsOf localDate orders transactions day kind) ∧
        FeesApart localDate orders range transactions day kind := by
  have hgross := revenue_written localDate orders transactions tables kind hday rfl gross_add
    (fun _ => rfl : ∀ values : GroupValues, RevenueRow.grossRevenue values.revenueRow = values.gross)
  have hrefund := revenue_written localDate orders transactions tables kind hday rfl refund_add
    (fun _ => rfl : ∀ values : GroupValues, RevenueRow.refundAmount values.revenueRow = values.refund)
  have hfee := revenue_written localDate orders transactions tables kind hday rfl fee_add
    (fun _ => rfl : ∀ values : GroupValues, RevenueRow.paymentFee values.revenueRow = values.fee)
  rw [← cost_written_iff localDate orders transactions tables kind hday]
  refine ⟨fun h => ⟨fun t ht hread => ?_, ?_⟩, fun h => ?_⟩
  · have hpaid := (sum_filter_eq_iff _ _ _).mp (hgross.symm.trans h.gross) t ht hread
    have hrefunded := (sum_filter_eq_iff _ _ _).mp (hrefund.symm.trans h.refund) t ht hread
    exact ⟨verifiedPaidAmount_eq_zero hpaid hrefunded,
      (sum_filter_eq_iff _ _ _).mp (hfee.symm.trans h.fee) t ht hread⟩
  · rw [h.cost, ← h.fee, hfee]
  · have hnone (weight : Transaction → ℕ)
        (hweight : ∀ t : Transaction, t.verifiedPaidAmount = 0 ∧ t.fee = 0 → weight t = 0) :
        (((factsOf localDate orders transactions day kind).filter (Transaction.selected · range)).map weight).sum =
          ((factsOf localDate orders transactions day kind).map weight).sum :=
      (sum_filter_eq_iff _ _ _).mpr fun t ht hread => hweight t (h.1 t ht hread)
    have hfees := hnone Transaction.fee fun _ hzero => hzero.2
    refine ⟨hgross.trans (hnone _ fun t hzero => ?_), hrefund.trans (hnone _ fun t hzero => ?_),
      hfee.trans hfees, h.2.trans hfees⟩
    · unfold Transaction.paid
      rw [hzero.1, ite_self]
    · unfold Transaction.refunded
      rw [hzero.1, ite_self]

/-- The figures of a range are complete exactly when the refresh reads every fact of its days and no two groups
with fees share a key of the costs. -/
theorem dailyFigures_complete_iff (range : RefreshRange) :
    (∀ day kind, range.contains day →
        AddsUp (factsOf localDate orders transactions day kind) day kind
          (refreshProductAnalytics localDate orders range transactions tables)) ↔
      ∀ day kind, range.contains day →
        ReadsAll range (factsOf localDate orders transactions day kind) ∧
          FeesApart localDate orders range transactions day kind :=
  ⟨fun h day kind hday => (addsUp_iff localDate orders transactions tables kind hday).mp (h day kind hday),
    fun h day kind hday => (addsUp_iff localDate orders transactions tables kind hday).mpr (h day kind hday)⟩

/-- What a refresh leaves under a key was written by it, or stood there before outside the range. -/
theorem get?_refresh (range : RefreshRange) (transactions : List Transaction) :
    ∃ (revenue : RevenueKey → Option RevenueRow) (costs : CostKey → Option CostRow), ∀ tables : Figures,
      (∀ key, (refreshProductAnalytics localDate orders range transactions tables).revenue.get? key =
        (revenue key).or (if range.contains key.usageDate then none else tables.revenue.get? key)) ∧
      ∀ key, (refreshProductAnalytics localDate orders range transactions tables).costs.get? key =
        (costs key).or (if range.contains key.usageDate then none else tables.costs.get? key) := by
  let groups := (grouped localDate orders (transactions.filter (Transaction.selected · range))).entries
  refine ⟨fun key => Dict.lookup key (groups.map fun e => (e.1, e.2.revenueRow)).reverse,
    fun key => Dict.lookup key (feeWrites groups).reverse, fun tables => ?_⟩
  unfold refreshProductAnalytics refreshRevenue deleteRange
  rw [foldl_writeGroup]
  simp only [Dict.get?_foldl_set, Dict.get?_filterKeys]
  constructor
  · intro key
    cases range.contains key.usageDate <;> rfl
  · intro key
    cases range.contains key.usageDate <;> rfl

/-- A refresh can be repeated: its rows do not depend on what was there in the range, and a second one changes nothing. -/
theorem refresh_again (tables other : Figures) :
    let once := refreshProductAnalytics localDate orders range transactions tables
    let twice := refreshProductAnalytics localDate orders range transactions once
    let fresh := refreshProductAnalytics localDate orders range transactions other
    (∀ key, twice.revenue.get? key = once.revenue.get? key) ∧ (∀ key, twice.costs.get? key = once.costs.get? key) ∧
    (∀ key, range.contains key.usageDate → fresh.revenue.get? key = once.revenue.get? key) ∧
    ∀ key, range.contains key.usageDate → fresh.costs.get? key = once.costs.get? key := by
  obtain ⟨revenue, costs, hget⟩ := get?_refresh localDate orders range transactions
  dsimp only
  simp only [(hget _).1, (hget _).2]
  refine ⟨fun key => ?_, fun key => ?_, fun key hkey => by rw [if_pos hkey, if_pos hkey],
    fun key hkey => by rw [if_pos hkey, if_pos hkey]⟩
  · cases revenue key <;> cases range.contains key.usageDate <;> rfl
  · cases costs key <;> cases range.contains key.usageDate <;> rfl

end Rows

/-- The day of a time in Vietnam. -/
def vietnamDate (seconds : ℤ) : ℤ := (seconds + 25200) / 86400

def packOrders (orderId : String) : Order :=
  ⟨"r1", .account, none, some (if orderId = "a" then "pack10" else "pack50")⟩

def packPayment (orderId : String) : Transaction :=
  ⟨orderId, .payment, .verified, 100000, 1000, 99000, some 1728000000, 1728000000000000⟩

def oneDay : RefreshRange := ⟨20000, 20000, 1727974800, 1728061200⟩

/-- Two credit packs bought on one day: the fee of the first one is overwritten. -/
theorem fee_overwritten :
    ¬ ∀ day kind, oneDay.contains day →
      AddsUp (factsOf vietnamDate packOrders [packPayment "a", packPayment "b"] day kind) day kind
        (refreshProductAnalytics vietnamDate packOrders oneDay [packPayment "a", packPayment "b"]
          ⟨.empty, .empty⟩) := by
  intro h
  have hcost := (h 20000 .account (by decide)).cost
  revert hcost
  decide

end Bidding.Analytics
