import Daybook.Account.Basic
import Daybook.Account.Name
import Daybook.Booking
import Daybook.Calendar.Date
import Daybook.Calendar.Moment
import Daybook.Calendar.Period
import Daybook.Calendar.Spec
import Daybook.Calendar.Unit
import Daybook.Command.Arguments
import Daybook.Command.Run
import Daybook.Command.Settings
import Daybook.Commodity
import Daybook.Decimal.Arith
import Daybook.Decimal.Basic
import Daybook.Decimal.Printing
import Daybook.Decimal.Reading
import Daybook.Digest
import Daybook.Files.Basic
import Daybook.Files.Expansion
import Daybook.Files.Path
import Daybook.Filter
import Daybook.Journal.Amount
import Daybook.Journal.Annotation
import Daybook.Journal.Basic
import Daybook.Journal.Directive
import Daybook.Journal.Fault
import Daybook.Journal.Line
import Daybook.Journal.Span
import Daybook.Journal.Token
import Daybook.Journal.Transaction
import Daybook.Main
import Daybook.Metadata
import Daybook.NameMap
import Daybook.Options
import Daybook.Pattern.Basic
import Daybook.Pattern.CharSet
import Daybook.Pattern.Notation
import Daybook.Report.Balance
import Daybook.Report.Basic
import Daybook.Report.Register
import Daybook.Report.Statistics
import Daybook.Report.Totals
import Daybook.Store.Admission
import Daybook.Store.Basic
import Daybook.Store.Declare
import Daybook.Store.Error
import Daybook.Store.Posting
import Daybook.Store.Reporter
import Daybook.Store.Resolve
import Daybook.Text.Basic
import Daybook.Text.Blank
import Daybook.Text.CaseFold
import Daybook.Text.CaseRun
import Daybook.Text.Letter
import Daybook.Text.LowerCase
import Daybook.Text.Numeral
import Daybook.Text.Printable
import Daybook.Text.Quoted
import Daybook.Text.RangeTable
import Daybook.Timeline
import Daybook.Turnover
import Daybook.Proofs.Commodity.Sum
import Daybook.Proofs.NameMap
import Daybook.Proofs.Commodity.ByName
import Daybook.Proofs.Booking.Cost
import Daybook.Proofs.Booking.Completion
import Daybook.Proofs.Store.Leads
import Daybook.Proofs.Store.Keeping
import Daybook.Proofs.Store.Accounts
import Daybook.Proofs.Store.FirstPass
import Daybook.Proofs.Store.Orderly
import Daybook.Proofs.Commodity.Posts
import Daybook.Proofs.Timeline
import Daybook.Proofs.Store.Posts
import Daybook.Proofs.Store.SecondPass
import Daybook.Proofs.Booking.Imbalance
import Daybook.Proofs.Store.Kept
import Daybook.Proofs.Store.Balancing
import Daybook.Proofs.Store.Trace
import Daybook.Proofs.Store.Units
import Daybook.Proofs.Store.Writing
import Daybook.Proofs.Store.WrittenPosting
import Daybook.Proofs.Store.Success
import Daybook.Proofs.Store.Offset
import Daybook.Proofs.Store.Secures
import Daybook.Proofs.Store.Refusals
import Daybook.Proofs.Store.Conflicts
import Daybook.Proofs.Commodity.Parts
import Daybook.Proofs.Report.GrandTotal
import Daybook.Proofs.Decimal.Magnitude
import Daybook.Proofs.Decimal.HalfEven
import Daybook.Proofs.Commodity.Sign
import Daybook.Proofs.Commodity.Load
import Daybook.Proofs.Booking.Load
import Daybook.Proofs.Store.Range
import Daybook.Proofs.Report.Leaves
import Daybook.Proofs.Report.Range
import Daybook.Proofs.Account.Beneath
import Daybook.Proofs.Store.Mirrors
import Daybook.Proofs.Store.Beneath
import Daybook.Proofs.Store.AppliedRoot
import Daybook.Proofs.Store.Coherent
import Daybook.Proofs.Timeline.Search
import Daybook.Proofs.Files.Runs
import Daybook.Proofs.Files.Graph
import Daybook.Proofs.Files.Cycles
import Daybook.Proofs.Files.Settled
import Daybook.Proofs.Files.Including
import Daybook.Proofs.Files.Search
import Daybook.Proofs.Files.InPlace
import Daybook.Proofs.Text.Lines
import Daybook.Proofs.Text.Numeral
import Daybook.Proofs.Text.Words
import Daybook.Proofs.Journal.Steps
import Daybook.Proofs.Journal.Coverage
import Daybook.Proofs.Journal.Shift
import Daybook.Proofs.Journal.Composition
import Daybook.Proofs.Journal.Insertion
import Daybook.Proofs.Journal.Nesting
import Daybook.Proofs.Store.NestedRoots
import Daybook.Proofs.Filter.Spelling
import Daybook.Proofs.Filter.Phrase
import Daybook.Proofs.Filter.Reading
import Daybook.Proofs.Filter.Words
import Daybook.Proofs.Calendar.Order
import Daybook.Proofs.Calendar.DayNumber
import Daybook.Proofs.Calendar.Extent
import Daybook.Proofs.Calendar.Shift
import Daybook.Proofs.Calendar.Naming
import Daybook.Proofs.Calendar.Tiling
import Daybook.Proofs.Calendar.Numeric
import Daybook.Proofs.Calendar.Clauses
import Daybook.Proofs.Text.LowerCase
import Daybook.Proofs.Calendar.Unit
import Daybook.Proofs.Calendar.Ranges
import Daybook.Proofs.Command.Days
import Daybook.Proofs.Commodity.Notation
import Daybook.Proofs.Booking.Notation
import Daybook.Proofs.Store.Notation
import Daybook.Proofs.Text.Trim
import Daybook.Proofs.Decimal.Written
import Daybook.Proofs.Decimal.Readable
import Daybook.Proofs.Calendar.Written
import Daybook.Proofs.Journal.Lexing
import Daybook.Proofs.Journal.TokenNames
import Daybook.Proofs.Journal.WrittenTokens
import Daybook.Proofs.Journal.TailPhrase
import Daybook.Proofs.Journal.AmountReading
import Daybook.Proofs.Journal.TailReading
import Daybook.Proofs.Journal.WrittenTail
import Daybook.Proofs.Journal.ReadTail
import Daybook.Proofs.Journal.WrittenAccount
import Daybook.Proofs.Journal.ReadPosting
import Daybook.Proofs.Journal.WrittenPosting
import Daybook.Proofs.Journal.PrintsBack
import Daybook.Proofs.Journal.WrittenHead
import Daybook.Proofs.Journal.ReadTransaction
import Daybook.Proofs.Journal.RoundTrip
import Daybook.Proofs.Report.Register
import Daybook.Proofs.Report.Rows
import Daybook.Proofs.Report.Format
import Daybook.Proofs.Store.Sign
import Daybook.Proofs.Report.Sign
import Daybook.Proofs.Store.Validation
import Daybook.Proofs.Turnover
import Daybook.Proofs.Booking.Residual
import Daybook.Proofs.Decimal.Opposite
import Daybook.Proofs.Booking.Reversal
import Daybook.Proofs.Booking.Tally
import Daybook.Proofs.Decimal.Places
import Daybook.Proofs.Journal.AmountText
import Daybook.Proofs.Journal.Layout
import Daybook.Proofs.Metadata
import Daybook.Proofs.Journal.Notes
import Daybook.Proofs.Report.Payee
import Daybook.Proofs.Journal.Spacing
import Daybook.Proofs.Journal.Reached
import Daybook.Proofs.Journal.QuotedNames
import Daybook.Proofs.Store.Lookup
import Daybook.Proofs.Journal.Years
import Daybook.Proofs.Account.Ancestors
import Daybook.Proofs.Journal.TokenTexts
import Daybook.Proofs.Journal.PriceLines
import Daybook.Proofs.Store.Digests
import Daybook.Proofs.Store.Statistics
