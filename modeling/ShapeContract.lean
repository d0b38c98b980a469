import ShapeContract.Journal.Line
import ShapeContract.Journal.Setup
import ShapeContract.Policy
import ShapeContract.Proofs.Declaration.Blocks
import ShapeContract.Proofs.Declaration.Declared
import ShapeContract.Proofs.Double.Rounding
import ShapeContract.Proofs.Double.Text
import ShapeContract.Proofs.Fields
import ShapeContract.Proofs.Graded
import ShapeContract.Proofs.Introspection.Depth
import ShapeContract.Proofs.Introspection.Expanded
import ShapeContract.Proofs.Introspection.Grown
import ShapeContract.Proofs.Introspection.Levels
import ShapeContract.Proofs.Introspection.Lifted
import ShapeContract.Proofs.Introspection.Records
import ShapeContract.Proofs.Introspection.Redeclared
import ShapeContract.Proofs.Introspection.Tables
import ShapeContract.Proofs.Journal.Handlers
import ShapeContract.Proofs.Lists
import ShapeContract.Proofs.Overrides.Key
import ShapeContract.Proofs.Overrides.Layout
import ShapeContract.Proofs.Overrides.Neutral
import ShapeContract.Proofs.Overrides.Optional
import ShapeContract.Proofs.Overrides.PathOrder
import ShapeContract.Proofs.Overrides.Present
import ShapeContract.Proofs.Overrides.Removed
import ShapeContract.Proofs.Overrides.Repeated
import ShapeContract.Proofs.Overrides.Required
import ShapeContract.Proofs.Overrides.Selection
import ShapeContract.Proofs.Overrides.Settled
import ShapeContract.Proofs.Overrides.Sharing
import ShapeContract.Proofs.Overrides.Spared
import ShapeContract.Proofs.Overrides.Standing
import ShapeContract.Proofs.Overrides.Unflagged
import ShapeContract.Proofs.Overrides.Walks
import ShapeContract.Proofs.Overrides.Writing
import ShapeContract.Proofs.Pattern.Again
import ShapeContract.Proofs.Query.Building
import ShapeContract.Proofs.Query.Conjunction
import ShapeContract.Proofs.Query.Leading
import ShapeContract.Proofs.Query.Matching
import ShapeContract.Proofs.Query.Mixed
import ShapeContract.Proofs.Query.Ordering
import ShapeContract.Proofs.Query.Paging
import ShapeContract.Proofs.Query.Projected
import ShapeContract.Proofs.Query.SortText
import ShapeContract.Proofs.Query.Sought
import ShapeContract.Proofs.Registry.InOrder
import ShapeContract.Proofs.Registry.Memory
import ShapeContract.Proofs.Registry.Spared
import ShapeContract.Proofs.Registry.Stages
import ShapeContract.Proofs.Registry.Transparency
import ShapeContract.Proofs.Registry.Yields
import ShapeContract.Proofs.Rule.Dotless
import ShapeContract.Proofs.Rule.Eased
import ShapeContract.Proofs.Rule.Gathered
import ShapeContract.Proofs.Rule.Keyed
import ShapeContract.Proofs.Rule.Lookup
import ShapeContract.Proofs.Rule.Meaning
import ShapeContract.Proofs.Rule.Path
import ShapeContract.Proofs.Rule.Placed
import ShapeContract.Proofs.Rule.Reordered
import ShapeContract.Proofs.Rule.RoundTrip
import ShapeContract.Proofs.Rule.Visible
import ShapeContract.Proofs.Sorting
import ShapeContract.Proofs.Text.Quoted
import ShapeContract.Proofs.Text.Trimmed
import ShapeContract.Proofs.Thinned
import ShapeContract.Proofs.Value.Canonical
import ShapeContract.Proofs.Value.Data
import ShapeContract.Proofs.Value.Framed
import ShapeContract.Proofs.Value.OwnOrder
import ShapeContract.Proofs.Value.Ranked
import ShapeContract.Proofs.Value.Shuffled
import ShapeContract.Proofs.Wire.Answers
import ShapeContract.Proofs.Wire.Appended
import ShapeContract.Proofs.Wire.Bounded
import ShapeContract.Proofs.Wire.Coercing
import ShapeContract.Proofs.Wire.Conservative
import ShapeContract.Proofs.Wire.Documents
import ShapeContract.Proofs.Wire.Faithful
import ShapeContract.Proofs.Wire.Flaws
import ShapeContract.Proofs.Wire.KeyOrder
import ShapeContract.Proofs.Wire.Numerals
import ShapeContract.Proofs.Wire.Objects
import ShapeContract.Proofs.Wire.Open
import ShapeContract.Proofs.Wire.Opened
import ShapeContract.Proofs.Wire.Origin
import ShapeContract.Proofs.Wire.Preparing
import ShapeContract.Proofs.Wire.Refilled
import ShapeContract.Proofs.Wire.Relaxed
import ShapeContract.Proofs.Wire.Same
import ShapeContract.Proofs.Wire.Undeclared
import ShapeContract.Proofs.Wire.Writable
import ShapeContract.Query.Request
import ShapeContract.Registry.Workspace
import ShapeContract.Web.Body
