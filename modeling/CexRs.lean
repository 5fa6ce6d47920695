import CexRs.Lib.Fold
import CexRs.Proof.Api
import CexRs.Proof.Availability
import CexRs.Proof.Cancels
import CexRs.Proof.Commuting
import CexRs.Proof.Conservation
import CexRs.Proof.Correlation
import CexRs.Proof.Depth
import CexRs.Proof.DoubleEntry
import CexRs.Proof.ExactlyOnce
import CexRs.Proof.Fairness
import CexRs.Proof.Feeds
import CexRs.Proof.Forwarding
import CexRs.Proof.Funding
import CexRs.Proof.History
import CexRs.Proof.HubPrivacy
import CexRs.Proof.ImmediateOrCancel
import CexRs.Proof.Isolation
import CexRs.Proof.Lookup
import CexRs.Proof.MarketData
import CexRs.Proof.OrdersTable
import CexRs.Proof.PaidBuys
import CexRs.Proof.PriceTimePriority
import CexRs.Proof.PrivateUpdates
import CexRs.Proof.Publishing
import CexRs.Proof.Quotes
import CexRs.Proof.RateBounds
import CexRs.Proof.RatePolicy
import CexRs.Proof.Reconciliation
import CexRs.Proof.Reference
import CexRs.Proof.Replies
import CexRs.Proof.Representation
import CexRs.Proof.Resets
import CexRs.Proof.Restored
import CexRs.Proof.RoundTrip
import CexRs.Proof.StrandedLock
import CexRs.Proof.Termination
import CexRs.Proof.TradeEvents
import CexRs.Proof.Uncrossed
import CexRs.Proof.Withdrawal
