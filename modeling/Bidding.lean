import Bidding.Outbox.Exclusivity
import Bidding.Sync.PackageLock
import Bidding.Delta.Agreement
import Bidding.Delta.Remembered
import Bidding.Procurement.InOrder
import Bidding.Procurement.LocalWork
import Bidding.Procurement.EnrichmentRuns
import Bidding.Procurement.Foretold
import Bidding.Usage.Allocation
import Bidding.Ai.Quota
import Bidding.Billing.RefundBound
import Bidding.Billing.Renewals
import Bidding.History.Frozen
import Bidding.Auth.NoRevival
import Bidding.Auth.Deliveries
import Bidding.Commercial.Tax
import Bidding.Analytics.Revenue
import Bidding.Registration.Verified
import Bidding.Documents.Superseded
import Bidding.Broker.Complete
import Bidding.Documents.Projected
import Bidding.Plans.CompareAndSet
import Bidding.Members.LastManager
import Bidding.Billing.Progress
import Bidding.Sync.Prefetched
import Bidding.Outbox.MergeLaws
import Bidding.Outbox.ParentRepair
import Bidding.Sync.Keyset
import Bidding.Sync.RebidOrder
import Bidding.Audit.Incremental
import Bidding.Goods.Preference
import Bidding.Packages.Lots
import Bidding.Packages.Openings
import Bidding.Tables.Pages
import Bidding.Evaluation.RankOrder
import Bidding.Evaluation.Separators
import Bidding.Evaluation.RolledUp
import Bidding.Versions.Resolved
import Bidding.Projections.Invalidation
import Bidding.Timeline.Fit
import Bidding.Monitor.Reliable
import Bidding.Holidays.Agreement
import Bidding.Deadlines.Export
import Bidding.Clarifications.Exact
import Bidding.Outbox.Interrupted
import Bidding.Plans.Cancelled
