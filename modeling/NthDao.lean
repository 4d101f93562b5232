import NthDao.CapTokenStore
import NthDao.Commerce.AttemptReadable
import NthDao.Commerce.DeadEnd
import NthDao.Commerce.OutboxReadable
import NthDao.Commerce.TradeHead
import NthDao.Commerce.TradeImport
import NthDao.Delivery.InboxWork
import NthDao.Delivery.OutboxDelivery
import NthDao.Delivery.OutboxGrowth
import NthDao.Delivery.OutboxRefines
import NthDao.Gossip.Dedup
import NthDao.Governance.Projection
import NthDao.Groups.Registry
import NthDao.Guardian.Commit
import NthDao.Market.FeedRuns
import NthDao.Mandate.Authorised
import NthDao.Marketplace.Escrow
import NthDao.Membership.Signed
import NthDao.Orchestration.ArchiveRuns
import NthDao.Routing.Replay
import NthDao.Spine.Unique
import NthDao.TradeRules.OfferStore
import NthDao.TradeRules.FetchRuns
import NthDao.TradeRules.PackageRuns
import NthDao.TradeRules.PolicyStore
import NthDao.Trust.Lookup
import NthDao.Trust.Revocations
import NthDao.Trust.Unverified
import NthDao.Delivery.Forward
import NthDao.Delivery.Handover
import NthDao.Commerce.ProofLimits
import NthDao.Plugins.MarketEntry
import NthDao.Plugins.MarketIndex
import NthDao.Plugins.MemoryBooks
import NthDao.ReputationRuns
import NthDao.Spine.ReadBack
import NthDao.Commerce.Money
import NthDao.Market.Federation
import NthDao.Web.RateRuns
import NthDao.TradeRules.RecognitionTime
import NthDao.AgentLedgerRuns
import NthDao.Receipts.Delegated
import NthDao.Plugins.IntentAcceptance
import NthDao.Plugins.IntentRetry
