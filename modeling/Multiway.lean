import Multiway.Arena.Basic
import Multiway.Arena.Node
import Multiway.Collection.Bijection
import Multiway.Collection.SortedMap
import Multiway.Collection.SortedSet
import Multiway.Comparison
import Multiway.Decimal.Basic
import Multiway.Decimal.Shortest
import Multiway.Error
import Multiway.Event
import Multiway.Fanout
import Multiway.Fault
import Multiway.Json.Codec
import Multiway.Json.Decode
import Multiway.Json.Document
import Multiway.Json.Failure
import Multiway.Json.Scanner
import Multiway.Sequence
import Multiway.Text.Extending
import Multiway.Text.Literal
import Multiway.Text.Ranges
import Multiway.Text.Unassigned
import Multiway.Text.Visible
import Multiway.Tree.Audit
import Multiway.Tree.Basic
import Multiway.Tree.Copy
import Multiway.Tree.Cursor
import Multiway.Tree.Exchange
import Multiway.Tree.Insertion
import Multiway.Tree.Removal
import Multiway.Tree.Search
import Multiway.Tree.Shape
import Multiway.Tree.Walk
import Multiway.Proofs.Arena.Cells
import Multiway.Proofs.Shape.Regular
import Multiway.Proofs.Entries
import Multiway.Proofs.Shape.Descent
import Multiway.Proofs.Shape.Insertion
import Multiway.Proofs.Shape.Removal
import Multiway.Proofs.Arena.Layout
import Multiway.Proofs.Arena.Reading
import Multiway.Proofs.Arena.Placing
import Multiway.Proofs.Tree.Search
import Multiway.Proofs.Tree.Insertion
import Multiway.Proofs.Tree.Removal
import Multiway.Proofs.Json.Members
import Multiway.Proofs.Tree.Making
import Multiway.Proofs.Tree.Copy
import Multiway.Proofs.Tree.Audit
import Multiway.Proofs.Tree.Valid
import Multiway.Proofs.Tree.Nearest
import Multiway.Proofs.Run.Operation
import Multiway.Proofs.Run.Reference
import Multiway.Proofs.Run.Laws
import Multiway.Proofs.Tree.Cursor
import Multiway.Proofs.Run.Travel
import Multiway.Proofs.Run.Seeking
import Multiway.Proofs.Run.Walking
import Multiway.Proofs.Tree.Slots
import Multiway.Proofs.Run.Ledger
import Multiway.Proofs.Run.Faultless
import Multiway.Proofs.Run.Loading
import Multiway.Proofs.Collection.Bijection
import Multiway.Proofs.Collection.BijectionLaws
import Multiway.Proofs.Run.Reversal
import Multiway.Proofs.Tree.Disorder
import Multiway.Proofs.Run.RoundTrip
import Multiway.Proofs.Run.Deque
import Multiway.Proofs.Run.Nearest
import Multiway.Proofs.Shape.Extent
import Multiway.Proofs.Run.Height
import Multiway.Proofs.Run.Reports
import Multiway.Proofs.Arena.Numbering
import Multiway.Proofs.Run.Copying
import Multiway.Proofs.Run.Draining
import Multiway.Proofs.Collection.Representatives
import Multiway.Proofs.Collection.SortedSet
import Multiway.Proofs.Collection.SetAlgebra
import Multiway.Proofs.Collection.SetLaws
import Multiway.Proofs.Collection.BijectionGuard
import Multiway.Proofs.Run.Asking
import Multiway.Proofs.Run.Streaming
import Multiway.Proofs.Run.Peak
import Multiway.Proofs.Collection.History
import Multiway.Proofs.Tree.Unfolding
import Multiway.Proofs.Tree.ValidBut
import Multiway.Proofs.Tree.Relief
import Multiway.Proofs.Tree.Changes
import Multiway.Proofs.Tree.Repair
import Multiway.Proofs.Tree.Tour
import Multiway.Proofs.Tree.Bounded
import Multiway.Proofs.Run.Ending
