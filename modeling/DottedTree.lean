import DottedTree.Arena.Basic
import DottedTree.Arena.Command
import DottedTree.Arena.Inspect
import DottedTree.Arena.Links
import DottedTree.Arena.Search
import DottedTree.Arena.Lookup
import DottedTree.Arena.Render
import DottedTree.Arena.Report
import DottedTree.Arena.Compare
import DottedTree.Arena.Exchange
import DottedTree.Arena.Slots
import DottedTree.Arena.SparseSlots
import DottedTree.Arena.Test
import DottedTree.Arena.Walk
import DottedTree.Binary64.Basic
import DottedTree.Binary64.Nearest
import DottedTree.Binary64.Shortest
import DottedTree.Blocks
import DottedTree.Criterion
import DottedTree.Decimal.Basic
import DottedTree.Decimal.Layout
import DottedTree.Json.Entries
import DottedTree.Json.Format
import DottedTree.Json.Item
import DottedTree.Json.Numeral
import DottedTree.Json.Text
import DottedTree.Json.Token
import DottedTree.MapFormat
import DottedTree.Node
import DottedTree.Notice
import DottedTree.Path
import DottedTree.Rounding
import DottedTree.Scalar
import DottedTree.Scalar.Text
import DottedTree.Text.Combining
import DottedTree.Text.Outline
import DottedTree.Text.Padding
import DottedTree.Text.Quoted
import DottedTree.Text.Ranges
import DottedTree.Text.Unprintable
import DottedTree.Tree.Adopt
import DottedTree.Tree.Basic
import DottedTree.Tree.Exchange
import DottedTree.Tree.Insert
import DottedTree.Tree.Inspect
import DottedTree.Tree.Lookup
import DottedTree.Tree.Place
import DottedTree.Tree.Render
import DottedTree.Tree.Select
import DottedTree.Tree.Walk
import DottedTree.Proofs.Path
import DottedTree.Proofs.Siblings
import DottedTree.Proofs.Sound
import DottedTree.Proofs.Standing
import DottedTree.Proofs.Storing
import DottedTree.Proofs.Visible
import DottedTree.Proofs.Trie
import DottedTree.Proofs.Reachable
import DottedTree.Proofs.Insertion
import DottedTree.Proofs.Rearrangement
import DottedTree.Proofs.Arena.Holding
import DottedTree.Proofs.Arena.Plot
import DottedTree.Proofs.Arena.Linking
import DottedTree.Proofs.Arena.Grafting
import DottedTree.Proofs.Arena.Models
import DottedTree.Proofs.Arena.Storing
import DottedTree.Proofs.Arena.Building
import DottedTree.Proofs.Arena.Linked
import DottedTree.Proofs.Arena.Focus
import DottedTree.Proofs.Arena.Searching
import DottedTree.Proofs.Arena.Extracting
import DottedTree.Proofs.Arena.Refining
import DottedTree.Proofs.Arena.Runs
import DottedTree.Proofs.Arena.Inserting
import DottedTree.Proofs.Arena.Keys
import DottedTree.Proofs.Arena.Placing
import DottedTree.Proofs.Arena.Tracing
import DottedTree.Proofs.Leaves
import DottedTree.Proofs.Rebuilding
import DottedTree.Proofs.Canonical
import DottedTree.Proofs.Arena.Comparing
import DottedTree.Proofs.Arena.Entries
import DottedTree.Proofs.Blocks
import DottedTree.Proofs.Arena.Reading
import DottedTree.Proofs.Arena.Blocks
import DottedTree.Proofs.Arena.Collections
import DottedTree.Proofs.Listing
import DottedTree.Proofs.Arena.Listing
import DottedTree.Proofs.Arena.Alongside
import DottedTree.Proofs.Shortest
import DottedTree.Proofs.Numeral
import DottedTree.Proofs.MapFormat
import DottedTree.Proofs.MapText
import DottedTree.Proofs.Arena.Exchange
import DottedTree.Proofs.Arena.Rendering
import DottedTree.Proofs.Arena.Facing
import DottedTree.Proofs.Arena.Twins
import DottedTree.Proofs.Arena.Copies
import DottedTree.Proofs.Adoption
import DottedTree.Proofs.Arena.Ascending
import DottedTree.Proofs.Arena.Excerpts
import DottedTree.Proofs.Arena.Selecting
import DottedTree.Proofs.Arena.Loading
import DottedTree.Proofs.Absorption
import DottedTree.Proofs.Arena.Absorbing
import DottedTree.Proofs.Reporting
import DottedTree.Proofs.Arena.Reporting
import DottedTree.Proofs.Arena.Replacing
import DottedTree.Proofs.Arena.Adopting
import DottedTree.Proofs.Arena.Accounting
import DottedTree.Proofs.Arena.Walking
import DottedTree.Proofs.Arena.Spelling
import DottedTree.Proofs.ElementKey
import DottedTree.Proofs.Arena.Relative
import DottedTree.Proofs.Arena.Matching
import DottedTree.Proofs.Arena.Deciding
