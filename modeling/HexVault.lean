import HexVault.Program.Inversion
import HexVault.Invariants.Ledger
import HexVault.Invariants.Calendar
import HexVault.Invariants.Reservation
import HexVault.Invariants.Accounts
import HexVault.Invariants.Stability
import HexVault.Invariants.Registration
import HexVault.Invariants.Winners
import HexVault.Invariants.Boundaries
import HexVault.Lib.Timeline
import HexVault.Invariants.Holdings
import HexVault.Invariants.Books
import HexVault.Invariants.Tickets
import HexVault.Invariants.Weight
import HexVault.Invariants.Neutrality
import HexVault.Invariants.Play
import HexVault.Invariants.Progress
import HexVault.Lib.Memo
import HexVault.Operator.Tick
import HexVault.Operator.Service
import HexVault.Operator.Cranked
import HexVault.Operator.Registered
import HexVault.Invariants.Gates
import HexVault.Invariants.Lifetime
import HexVault.Invariants.Solvency
import HexVault.Invariants.Maturity
import HexVault.Invariants.Parameters
import HexVault.Invariants.Rollover
import HexVault.Invariants.Authority
import HexVault.Invariants.Shutdown
import HexVault.Invariants.Exit
import HexVault.Program.Accepts
import HexVault.Invariants.Live
import HexVault.Invariants.Succession
import HexVault.Invariants.Grid
import HexVault.Invariants.Counters
import HexVault.Invariants.Yield
import HexVault.Invariants.Caps
import HexVault.Invariants.Accrual
import HexVault.Invariants.Stakes
import HexVault.Api.Weights
import HexVault.Operator.Chosen
import HexVault.Invariants.Enabled
import HexVault.Operator.Sound
import HexVault.Operator.Queries
import HexVault.Indexer.Attribution
import HexVault.Operator.Steps
import HexVault.Invariants.Weighted
import HexVault.Operator.Wake
import HexVault.Operator.Withdrawals
import HexVault.Admin.EmergencyCrank
import HexVault.Indexer.CatchUp
import HexVault.Indexer.Freshness
import HexVault.Lib.ReadCommitted
import HexVault.Api.Redeem
import HexVault.Api.Consent
import HexVault.Api.ReferralBonus
import HexVault.Indexer.Grants
import HexVault.Lib.Outbox
import HexVault.Operator.Granting
import HexVault.Indexer.Mirror
import HexVault.Indexer.MirrorOrder
import HexVault.Invariants.Touches
import HexVault.Api.Referrals
import HexVault.Api.Bonuses
import HexVault.Api.Splits
import HexVault.Indexer.ShareSums
import HexVault.Indexer.Qualification
import HexVault.Program.Unbiased
import HexVault.Web.Money
import HexVault.Operator.Sponge
import HexVault.Lib.Keccak
import HexVault.Lib.Words
import HexVault.Lib.Replicas
import HexVault.Indexer.Referrals
import HexVault.Indexer.ReferralOrder
import HexVault.Lib.Journals
import HexVault.Invariants.Journaled
import HexVault.Invariants.EpochLog
import HexVault.Invariants.RoundLog
import HexVault.Indexer.Settled
import HexVault.Api.Figures
import HexVault.Web.Sending
import HexVault.Chain.Sending
import HexVault.Chain.Fallback
import HexVault.Chain.Addresses
import HexVault.Invariants.Errands
import HexVault.Operator.Spending
