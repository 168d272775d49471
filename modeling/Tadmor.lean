import Tadmor.Proof.OverApply
import Tadmor.Proof.Subledger
import Tadmor.Proof.Calendar
import Tadmor.Proof.Reports
import Tadmor.Proof.Matching
import Tadmor.Proof.Fulfilment
import Tadmor.Proof.YearOrder
import Tadmor.Proof.Reconciling
import Tadmor.Proof.RoundTrip
import Tadmor.Proof.DoublePost
import Tadmor.Proof.Chart
import Tadmor.Proof.MultiCurrency
import Tadmor.Proof.ExactDivision
import Tadmor.Proof.Admins
import Tadmor.Proof.Sessions
import Tadmor.Proof.EntryContent
import Tadmor.Proof.Lifecycle
import Tadmor.Proof.Contention
import Tadmor.Proof.Completeness
import Tadmor.Proof.CloseBalances
import Tadmor.Proof.Shipping
import Tadmor.Proof.FullSettlement
import Tadmor.Proof.Greedy
import Tadmor.Proof.Unposting
import Tadmor.Proof.Clearing
import Tadmor.Proof.YearRoundTrip
import Tadmor.Proof.PeriodResolution
import Tadmor.Proof.AutoMatch
import Tadmor.Proof.AverageCost
import Tadmor.Proof.CSVImport
import Tadmor.Proof.LinePreview
import Tadmor.Proof.OrderInvoice
import Tadmor.Proof.AmountText
import Tadmor.Proof.PDF
import Tadmor.Proof.Wrapping
import Tadmor.Proof.Rendering
import Tadmor.Proof.FormDates
import Tadmor.Proof.Aging
import Tadmor.Proof.LedgerAnswers
import Tadmor.Proof.AutoApply
import Tadmor.Proof.DoubleUnpost
import Tadmor.Proof.PostBesideEdit
import Tadmor.Proof.ConcurrentBooks
import Tadmor.Proof.Migrations
import Tadmor.Proof.LedgerHistory
import Tadmor.Proof.Logins
import Tadmor.Proof.ReportPages
import Tadmor.Proof.DraftAccepted
