import KWayMerge.Comparator
import KWayMerge.Count
import KWayMerge.Key.Basic
import KWayMerge.Key.Integer
import KWayMerge.Key.Float
import KWayMerge.Key.Placed
import KWayMerge.Fault
import KWayMerge.FanIn
import KWayMerge.Merge.Pick
import KWayMerge.Merge.Tally
import KWayMerge.Merge.Basic
import KWayMerge.Merge.Verified
import KWayMerge.Merge.Progress
import KWayMerge.Merge.Stream
import KWayMerge.Log.Record
import KWayMerge.Log.Pattern
import KWayMerge.Log.Rule
import KWayMerge.Log.Filter
import KWayMerge.Event
import KWayMerge.Buffer.Action
import KWayMerge.Buffer.Chunks
import KWayMerge.Buffer.BaseBlocks
import KWayMerge.Buffer.Plan
import KWayMerge.Buffer.Coarsen
import KWayMerge.Buffer.Select
import KWayMerge.Ranking
import KWayMerge.Number.Binary64
import KWayMerge.Number.Decimal
import KWayMerge.Text.CharRange
import KWayMerge.Text.Digit
import KWayMerge.Text.Bytes
import KWayMerge.Text.Letter
import KWayMerge.Text.Shown
import KWayMerge.Text.Quoted
import KWayMerge.Toml.Value
import KWayMerge.Toml.Lexical
import KWayMerge.Toml.Scalar
import KWayMerge.Toml.Document
import KWayMerge.Toml.Format
import KWayMerge.Toml.Writing
import KWayMerge.Settings.Basic
import KWayMerge.Settings.Fault
import KWayMerge.Settings.Reading
import KWayMerge.Settings.Writing
import KWayMerge.Bench.Quantity
import KWayMerge.Bench.Sample
import KWayMerge.Bench.Reference
import KWayMerge.Bench.Options
import KWayMerge.Bench.Session
import KWayMerge.Main
import KWayMerge.Proofs.Order.StableSort
import KWayMerge.Proofs.Order.Inversions
import KWayMerge.Proofs.Key.Laws
import KWayMerge.Proofs.Key.Value
import KWayMerge.Proofs.Key.Ordering
import KWayMerge.Proofs.Merge.Heads
import KWayMerge.Proofs.Merge.Picks
import KWayMerge.Proofs.Merge.Restart
import KWayMerge.Proofs.Merge.Progress
import KWayMerge.Proofs.Merge.Advancing
import KWayMerge.Proofs.Merge.Resumption
import KWayMerge.Proofs.Merge.Pieces
import KWayMerge.Proofs.Merge.Suspension
import KWayMerge.Proofs.Merge.Feed
import KWayMerge.Proofs.Merge.HeadMerge
import KWayMerge.Proofs.Merge.StableMerge
import KWayMerge.Proofs.Merge.Nesting
import KWayMerge.Proofs.Merge.Interleaving
import KWayMerge.Proofs.Merge.Disorder
import KWayMerge.Proofs.Merge.Verified
import KWayMerge.Proofs.Merge.Destination
import KWayMerge.Proofs.Buffer.Chunks
import KWayMerge.Proofs.Buffer.Gather
import KWayMerge.Proofs.Buffer.Rounds
import KWayMerge.Proofs.Buffer.Folds
import KWayMerge.Proofs.Buffer.Selection
import KWayMerge.Proofs.Buffer.Layout
import KWayMerge.Proofs.Buffer.Words
import KWayMerge.Proofs.Buffer.Calls
import KWayMerge.Proofs.Buffer.Untouched
import KWayMerge.Proofs.Buffer.Report
import KWayMerge.Proofs.Buffer.Coarsening
import KWayMerge.Proofs.Buffer.Rearrangement
import KWayMerge.Proofs.Buffer.SelectionOrder
import KWayMerge.Proofs.Buffer.RoundsInRow
import KWayMerge.Proofs.Buffer.SortingRounds
import KWayMerge.Proofs.Ranking
import KWayMerge.Proofs.Rows
import KWayMerge.Proofs.Toml.Readers
import KWayMerge.Proofs.Toml.Entries
import KWayMerge.Proofs.Toml.Lines
import KWayMerge.Proofs.Settings.Reading
import KWayMerge.Proofs.Settings.RoundTrip
import KWayMerge.Proofs.Bench.Agreement
