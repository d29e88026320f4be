import ObjectQuery.CommandLine
import ObjectQuery.Condition.Basic
import ObjectQuery.Condition.Codec
import ObjectQuery.Condition.Evaluate
import ObjectQuery.Discovery.Found
import ObjectQuery.Discovery.Path
import ObjectQuery.Failure
import ObjectQuery.Json.Document
import ObjectQuery.Json.Pretty
import ObjectQuery.Json.Record
import ObjectQuery.Json.Text
import ObjectQuery.Json.Value
import ObjectQuery.Lookup
import ObjectQuery.Main
import ObjectQuery.Matching
import ObjectQuery.Number.Basic
import ObjectQuery.Number.Double
import ObjectQuery.Number.Nearest
import ObjectQuery.Number.Numeral
import ObjectQuery.Number.Shortest
import ObjectQuery.Number.Word
import ObjectQuery.Pipeline.Basic
import ObjectQuery.Pipeline.Stage
import ObjectQuery.Pipeline.Stream
import ObjectQuery.Plan
import ObjectQuery.Predicate.Basic
import ObjectQuery.Predicate.Codec
import ObjectQuery.Projection
import ObjectQuery.Proofs.Condition.Asked
import ObjectQuery.Proofs.Condition.Gathering
import ObjectQuery.Proofs.Condition.Meaning
import ObjectQuery.Proofs.Condition.Reached
import ObjectQuery.Proofs.Condition.Reading
import ObjectQuery.Proofs.Condition.Regrouping
import ObjectQuery.Proofs.Condition.Verdict
import ObjectQuery.Proofs.Condition.Writing
import ObjectQuery.Proofs.Discovery.Composition
import ObjectQuery.Proofs.Discovery.Nesting
import ObjectQuery.Proofs.Discovery.Numerals
import ObjectQuery.Proofs.Json.Normal
import ObjectQuery.Proofs.Json.Record
import ObjectQuery.Proofs.Json.Text
import ObjectQuery.Proofs.Lookup.Fresh
import ObjectQuery.Proofs.Lookup.Gives
import ObjectQuery.Proofs.Lookup.Invariants
import ObjectQuery.Proofs.Lookup.Questions
import ObjectQuery.Proofs.Matching.Permutation
import ObjectQuery.Proofs.Matching.Rows
import ObjectQuery.Proofs.Number.Exact
import ObjectQuery.Proofs.Number.Nearest
import ObjectQuery.Proofs.Number.Order
import ObjectQuery.Proofs.Pipeline.Acceptance
import ObjectQuery.Proofs.Pipeline.Columns
import ObjectQuery.Proofs.Pipeline.Commuting
import ObjectQuery.Proofs.Pipeline.Fusion
import ObjectQuery.Proofs.Pipeline.Ordered
import ObjectQuery.Proofs.Pipeline.Passes
import ObjectQuery.Proofs.Pipeline.Reprojection
import ObjectQuery.Proofs.Pipeline.Resorting
import ObjectQuery.Proofs.Pipeline.Stages
import ObjectQuery.Proofs.Pipeline.Tallies
import ObjectQuery.Proofs.Placing
import ObjectQuery.Proofs.Plan.Settled
import ObjectQuery.Proofs.Predicate.Elements
import ObjectQuery.Proofs.Predicate.Reordering
import ObjectQuery.Proofs.Predicate.Text
import ObjectQuery.Proofs.Predicate.Writing
import ObjectQuery.Proofs.Projection.Identifiers
import ObjectQuery.Proofs.Report.Cells
import ObjectQuery.Proofs.Report.Position
import ObjectQuery.Proofs.Running
import ObjectQuery.Proofs.Script.Writing
import ObjectQuery.Proofs.Session.Accounts
import ObjectQuery.Proofs.Session.Asking
import ObjectQuery.Proofs.Session.Brings
import ObjectQuery.Proofs.Session.Gate
import ObjectQuery.Proofs.Session.Limit
import ObjectQuery.Proofs.Session.Progress
import ObjectQuery.Proofs.Session.Query
import ObjectQuery.Proofs.Session.Run
import ObjectQuery.Proofs.Session.Shown
import ObjectQuery.Proofs.Session.Stopping
import ObjectQuery.Proofs.Session.Transparency
import ObjectQuery.Proofs.Sorting.Complete
import ObjectQuery.Proofs.Sorting.Order
import ObjectQuery.Proofs.Store.Growth
import ObjectQuery.Proofs.Store.History
import ObjectQuery.Proofs.Text.Decimal
import ObjectQuery.Report.Basic
import ObjectQuery.Report.Cell
import ObjectQuery.Report.Position
import ObjectQuery.Script.Basic
import ObjectQuery.Script.Codec
import ObjectQuery.Session.Basic
import ObjectQuery.Session.Execute
import ObjectQuery.Session.Gate
import ObjectQuery.Settings.Basic
import ObjectQuery.Settings.Layers
import ObjectQuery.Sorting
import ObjectQuery.Sorting.Runs
import ObjectQuery.Sorting.Short
import ObjectQuery.Store.Basic
import ObjectQuery.Store.Entry
import ObjectQuery.Store.NameSet
import ObjectQuery.Text.Decimal
import ObjectQuery.Text.DecimalDigit
