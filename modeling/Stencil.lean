import Stencil.Table
import Stencil.Text.Blank
import Stencil.Text.Search
import Stencil.Text.Utf8
import Stencil.Text.Case
import Stencil.Text.Quoted
import Stencil.Text.Html
import Stencil.Text.Base64
import Stencil.Decimal.Layout
import Stencil.Decimal.Reader
import Stencil.Time.Format
import Stencil.Time.Read
import Stencil.Json.Parser
import Stencil.Value.Basic
import Stencil.Value.Order
import Stencil.Shape.Convert
import Stencil.Expr.Basic
import Stencil.Expr.Token
import Stencil.Expr.Parser
import Stencil.Markup.Piece
import Stencil.Expr.Arithmetic
import Stencil.Error
import Stencil.Filter.Basic
import Stencil.Filter.Standard
import Stencil.Query.Item
import Stencil.Query.Basic
import Stencil.Query.Token
import Stencil.Query.Parser
import Stencil.Filter.Extension
import Stencil.Expr.Eval
import Stencil.Template.Node
import Stencil.Template.Grammar
import Stencil.Template.Basic
import Stencil.Tags.Assignment
import Stencil.Tags.Condition
import Stencil.Tags.Inclusion
import Stencil.Tags.Loop
import Stencil.Tags.Verbatim
import Stencil.Tags.Outline
import Stencil.Tags.Standard
import Stencil.Store
import Stencil.Cache
import Stencil.Slots
import Stencil.Render.Scope
import Stencil.Render.Sink
import Stencil.Render.State
import Stencil.Render.Run
import Stencil.Options
import Stencil.Engine
import Stencil.Proofs.Steps
import Stencil.Proofs.Parts
import Stencil.Proofs.Congruence
import Stencil.Proofs.Scopes
import Stencil.Proofs.Machine
import Stencil.Proofs.Reachable
import Stencil.Proofs.Restoration
import Stencil.Proofs.Interruption
import Stencil.Proofs.Compilation
import Stencil.Proofs.Soundness
import Stencil.Proofs.Nesting
import Stencil.Proofs.Loading
import Stencil.Proofs.Transparency
import Stencil.Proofs.Isolation
import Stencil.Proofs.Operations
import Stencil.Proofs.Tiling
import Stencil.Proofs.Scanning
import Stencil.Proofs.Quoting
import Stencil.Proofs.Verbatim
import Stencil.Proofs.Blocks
import Stencil.Proofs.Roundtrip
import Stencil.Proofs.Leniency
import Stencil.Proofs.Tables
import Stencil.Proofs.Shapes
import Stencil.Proofs.Integers
import Stencil.Proofs.Shortest
import Stencil.Proofs.Reconversion
import Stencil.Proofs.Blame
import Stencil.Proofs.Faults
import Stencil.Proofs.Places
import Stencil.Proofs.Jumps
import Stencil.Proofs.Mentions
import Stencil.Proofs.StandIns
import Stencil.Proofs.Origins
import Stencil.Proofs.Occurrences
import Stencil.Proofs.Cycles
import Stencil.Proofs.Appending
import Stencil.Proofs.Floats
import Stencil.Proofs.Sorting
import Stencil.Proofs.Ordering
import Stencil.Proofs.Resorting
import Stencil.Proofs.Comparing
import Stencil.Proofs.Quotients
import Stencil.Proofs.Items
import Stencil.Proofs.Iterations
import Stencil.Proofs.RangeLoops
import Stencil.Proofs.WholeNumbers
import Stencil.Proofs.Signs
import Stencil.Proofs.Subscripts
import Stencil.Proofs.Spacing
import Stencil.Proofs.Catalogue
import Stencil.Proofs.Choices
import Stencil.Proofs.Captures
import Stencil.Proofs.Collections
import Stencil.Proofs.Sequences
import Stencil.Proofs.Locations
import Stencil.Proofs.Escaping
import Stencil.Proofs.Matching
import Stencil.Proofs.Splitting
import Stencil.Proofs.Stripping
import Stencil.Proofs.Base64
import Stencil.Proofs.Inference
import Stencil.Proofs.Words
import Stencil.Proofs.Bounds
import Stencil.Proofs.Overflow
