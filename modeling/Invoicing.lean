import Invoicing.Alignment
import Invoicing.Arguments
import Invoicing.BillingModes
import Invoicing.Binary64.Shortest
import Invoicing.Binary64.Text
import Invoicing.Calendar.Date
import Invoicing.Calendar.Month
import Invoicing.Calendar.Timestamp
import Invoicing.Calendar.Zone
import Invoicing.Catalog
import Invoicing.Catalog.Plan
import Invoicing.Clock
import Invoicing.Config
import Invoicing.Config.Source
import Invoicing.Currency
import Invoicing.Cycle
import Invoicing.Decimal.Arithmetic
import Invoicing.Decimal.Basic
import Invoicing.Decimal.Rounding
import Invoicing.Decimal.Text
import Invoicing.Digest.Sha256
import Invoicing.Event
import Invoicing.Fault
import Invoicing.Fault.Kind
import Invoicing.Generation
import Invoicing.Identifier
import Invoicing.Item
import Invoicing.Loader
import Invoicing.Loader.Cursor
import Invoicing.Loader.Fault
import Invoicing.Loader.Form
import Invoicing.Loader.Lexer
import Invoicing.Loader.Meaning
import Invoicing.Loader.Node
import Invoicing.Loader.Scalar
import Invoicing.Loader.Token
import Invoicing.Log.Context
import Invoicing.Log.Level
import Invoicing.Log.Process
import Invoicing.Log.Record
import Invoicing.Log.Template
import Invoicing.Money
import Invoicing.Program
import Invoicing.Proofs.Alignment.FirstCharge
import Invoicing.Proofs.Alignment.FreeDays
import Invoicing.Proofs.Alignment.Offsets
import Invoicing.Proofs.Alignment.Phases
import Invoicing.Proofs.Alignment.Usable
import Invoicing.Proofs.Alongside
import Invoicing.Proofs.BillingModes
import Invoicing.Proofs.Calendar.DayNumber
import Invoicing.Proofs.Calendar.Instant
import Invoicing.Proofs.Calendar.Order
import Invoicing.Proofs.Calendar.SetBack
import Invoicing.Proofs.Calendar.WholeMonths
import Invoicing.Proofs.Clock
import Invoicing.Proofs.Config.CurrencyCodes
import Invoicing.Proofs.Config.Documents
import Invoicing.Proofs.Config.PlainData
import Invoicing.Proofs.Config.Refusal
import Invoicing.Proofs.Cycle.Counts
import Invoicing.Proofs.Cycle.Cutting
import Invoicing.Proofs.Cycle.Drift
import Invoicing.Proofs.Cycle.Grid
import Invoicing.Proofs.Cycle.Periods
import Invoicing.Proofs.Cycle.Resuming
import Invoicing.Proofs.Cycle.Segments
import Invoicing.Proofs.Cycle.Splitting
import Invoicing.Proofs.Cycle.Tiling
import Invoicing.Proofs.Decimal.Congruence
import Invoicing.Proofs.Decimal.Exact
import Invoicing.Proofs.Decimal.Monotone
import Invoicing.Proofs.Decimal.Nearest
import Invoicing.Proofs.Decimal.Quotient
import Invoicing.Proofs.Decimal.Remainder
import Invoicing.Proofs.Decimal.Residue
import Invoicing.Proofs.Decimal.Sign
import Invoicing.Proofs.Decimal.Units
import Invoicing.Proofs.Decimal.Value
import Invoicing.Proofs.Failure
import Invoicing.Proofs.Generation.Audit
import Invoicing.Proofs.Generation.Cancellation
import Invoicing.Proofs.Generation.Coverage
import Invoicing.Proofs.Generation.History
import Invoicing.Proofs.Generation.Horizon
import Invoicing.Proofs.Generation.Idempotence
import Invoicing.Proofs.Generation.Incremental
import Invoicing.Proofs.Generation.LoadOrder
import Invoicing.Proofs.Generation.Pinned
import Invoicing.Proofs.Generation.Plan
import Invoicing.Proofs.Generation.Refusal
import Invoicing.Proofs.Generation.Separation
import Invoicing.Proofs.Generation.Trail
import Invoicing.Proofs.Generation.WellFormed
import Invoicing.Proofs.Item
import Invoicing.Proofs.Log.Context
import Invoicing.Proofs.Log.Fields
import Invoicing.Proofs.Log.Journal
import Invoicing.Proofs.Log.Lines
import Invoicing.Proofs.Log.Restoring
import Invoicing.Proofs.Log.Sessions
import Invoicing.Proofs.Money
import Invoicing.Proofs.Money.Construction
import Invoicing.Proofs.Money.Rounding
import Invoicing.Proofs.Outcome
import Invoicing.Proofs.Proposal.Amounts
import Invoicing.Proofs.Proposal.Charges
import Invoicing.Proofs.Proposal.Days
import Invoicing.Proofs.Proposal.Drafts
import Invoicing.Proofs.Proposal.Due
import Invoicing.Proofs.Proposal.Earlier
import Invoicing.Proofs.Proposal.Ending
import Invoicing.Proofs.Proposal.Sequence
import Invoicing.Proofs.Reconciliation.Arrangement
import Invoicing.Proofs.Reconciliation.Cancelling
import Invoicing.Proofs.Reconciliation.Conservation
import Invoicing.Proofs.Reconciliation.Convergence
import Invoicing.Proofs.Reconciliation.Ending
import Invoicing.Proofs.Reconciliation.Finite
import Invoicing.Proofs.Reconciliation.Ledgers
import Invoicing.Proofs.Reconciliation.Lines
import Invoicing.Proofs.Reconciliation.Matching
import Invoicing.Proofs.Reconciliation.Owned
import Invoicing.Proofs.Reconciliation.Parallel
import Invoicing.Proofs.Reconciliation.Posting
import Invoicing.Proofs.Reconciliation.Refunds
import Invoicing.Proofs.Reconciliation.Refusal
import Invoicing.Proofs.Reconciliation.Reordering
import Invoicing.Proofs.Reconciliation.Revision
import Invoicing.Proofs.Reconciliation.Separation
import Invoicing.Proofs.Reconciliation.Settling
import Invoicing.Proofs.Reconciliation.Standing
import Invoicing.Proofs.Reconciliation.Terms
import Invoicing.Proofs.Reconciliation.Unchanged
import Invoicing.Proofs.Run
import Invoicing.Proofs.Timeline.Groups
import Invoicing.Proofs.Timeline.Insertion
import Invoicing.Proofs.Timeline.Invariant
import Invoicing.Proofs.Timeline.Order
import Invoicing.Proofs.Timeline.Sameness
import Invoicing.Proofs.Value.JsonReading
import Invoicing.Proofs.Value.JsonText
import Invoicing.Proofs.Value.KeyOrder
import Invoicing.Proposal
import Invoicing.Reconciliation
import Invoicing.Reconciliation.Charge
import Invoicing.Reconciliation.Ledger
import Invoicing.Run
import Invoicing.Text.Blank
import Invoicing.Text.Capital
import Invoicing.Text.Digit
import Invoicing.Text.Printable
import Invoicing.Text.Quoted
import Invoicing.Timeline
import Invoicing.Trace
import Invoicing.Value
import Invoicing.Value.Json
import Invoicing.Value.Member
import Invoicing.Value.Text
