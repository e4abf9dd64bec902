import SheetCensus.Main
import SheetCensus.Tree.Change
import SheetCensus.Proofs.Batch.Entry
import SheetCensus.Proofs.Batch.Run
import SheetCensus.Proofs.Stylesheet.Reading
import SheetCensus.Proofs.Css.Likeness
import SheetCensus.Proofs.Css.Locality
import SheetCensus.Proofs.Css.Joining
import SheetCensus.Proofs.Source.Offset
import SheetCensus.Proofs.Stylesheet.Likeness
import SheetCensus.Proofs.Stylesheet.Joining
import SheetCensus.Proofs.Batch.Completion
import SheetCensus.Proofs.Census.Sequence
import SheetCensus.Proofs.Report.Grammar
import SheetCensus.Proofs.Batch.LineEnds
import SheetCensus.Proofs.Batch.Emptiness
import SheetCensus.Proofs.Stylesheet.Opacity
import SheetCensus.Proofs.CommandLine.Printing
import SheetCensus.Proofs.Census.Pattern
import SheetCensus.Proofs.Census.Tally
import SheetCensus.Proofs.Stylesheet.Acceptance
import SheetCensus.Proofs.Stylesheet.Shape
import SheetCensus.Proofs.Report.Reader
import SheetCensus.Proofs.Stylesheet.Address
import SheetCensus.Proofs.Stylesheet.Label
import SheetCensus.Proofs.Stylesheet.Place
import SheetCensus.Proofs.Batch.Precedence
import SheetCensus.Proofs.Batch.Telling
import SheetCensus.Proofs.CommandLine.Quiet
import SheetCensus.Proofs.Tree.History
import SheetCensus.Proofs.CommandLine.Session
import SheetCensus.Proofs.Stylesheet.CommentBody
import SheetCensus.Proofs.Css.Index
import SheetCensus.Proofs.Batch.RawText
import SheetCensus.Proofs.Batch.Preview
import SheetCensus.Proofs.Stylesheet.SelectorText
import SheetCensus.Proofs.Stylesheet.Splitting
